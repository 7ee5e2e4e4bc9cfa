import Jetrun.Lib.Marking
import Jetrun.Lib.Runs
import Mathlib.Data.List.Nodup

/-!
# Tables whose rows refer to each other

A schema lists the columns that refer to other tables, and what becomes of a row when the one it
refers to is deleted: it is deleted too, it forgets the reference, or it forbids the deletion. Some
tables are append-only.

A statement that deletes rows deletes the least set of rows that holds them and with every row the
rows that cascade from it (`mem_doomed`). Whatever it deletes, no reference is left dangling
(`Integral.delete`), and the rows it spares are changed in the references they forget only
(`mem_delete`). No statement touches the rows of an append-only table (`mem_execute`).
-/

namespace Referential

inductive OnDelete
  | cascade
  | setNull
  | restrict
deriving DecidableEq

/-- A column of one table that holds keys of another. -/
structure ForeignKey (τ κ : Type*) where
  child : τ
  column : κ
  parent : τ
  onDelete : OnDelete
deriving DecidableEq

structure Row (τ κ ν : Type*) where
  table : τ
  columns : List (κ × Option ν)
deriving DecidableEq

/-- `constraints` is what else a statement has to keep. -/
structure Schema (τ κ ν : Type*) where
  primaryKey : τ → List κ
  foreignKeys : List (ForeignKey τ κ)
  appendOnly : τ → Bool
  constraints : List (Row τ κ ν) → Bool

variable {τ κ ν : Type*} [DecidableEq τ] [DecidableEq κ] [DecidableEq ν]

namespace Row

variable (r : Row τ κ ν)

/-- What the column holds, unless it is `NULL`. -/
def value (column : κ) : Option ν := (r.columns.find? (·.1 = column)).bind (·.2)

def change (f : κ → Option ν → Option ν) : Row τ κ ν :=
  { r with columns := r.columns.map fun c => (c.1, f c.1 c.2) }

end Row

namespace Schema

variable (S : Schema τ κ ν) (rows : List (Row τ κ ν)) (r p : Row τ κ ν)

/-- The table of a row and its primary key. -/
def id : τ × List (Option ν) := (r.table, (S.primaryKey r.table).map r.value)

def RefersBy (fk : ForeignKey τ κ) : Prop :=
  r.table = fk.child ∧ ∃ v ∈ r.value fk.column, S.id p = (fk.parent, [some v])

instance (fk : ForeignKey τ κ) : Decidable (S.RefersBy r p fk) :=
  inferInstanceAs (Decidable (_ ∧ ∃ v ∈ r.value fk.column, _))

def Refers (action : OnDelete) : Prop :=
  ∃ fk ∈ S.foreignKeys, fk.onDelete = action ∧ S.RefersBy r p fk

instance (action : OnDelete) : Decidable (S.Refers r p action) :=
  inferInstanceAs (Decidable (∃ fk ∈ S.foreignKeys, _))

/-- Every key is there once, and every reference leads to a row. -/
structure Integral : Prop where
  keys : (rows.map S.id).Nodup
  refs : ∀ r ∈ rows, ∀ fk ∈ S.foreignKeys, r.table = fk.child → ∀ v ∈ r.value fk.column,
    ∃ p ∈ rows, S.id p = (fk.parent, [some v])

instance : Decidable (S.Integral rows) :=
  decidable_of_iff ((rows.map S.id).Nodup ∧ ∀ r ∈ rows, ∀ fk ∈ S.foreignKeys,
      r.table = fk.child → ∀ v ∈ r.value fk.column, ∃ p ∈ rows, S.id p = (fk.parent, [some v]))
    ⟨fun h => ⟨h.1, h.2⟩, fun h => ⟨h.keys, h.refs⟩⟩

/-- A reference that can be forgotten is not part of a key. -/
def Forgettable : Prop :=
  ∀ fk ∈ S.foreignKeys, fk.onDelete = .setNull → fk.column ∉ S.primaryKey fk.child

section Delete

/-- The rows that cascade from a row, directly. -/
def children (p : Row τ κ ν) : List (Row τ κ ν) :=
  if p ∈ rows then rows.filter fun r => S.Refers r p .cascade else []

/-- The rows that go when `targets` do. -/
def doomed (targets : List (Row τ κ ν)) : List (Row τ κ ν) :=
  Marking.walk (S.children rows)
    (Marking.cost (S.children rows) rows (· ∈ ([] : List (Row τ κ ν))) targets) targets []

def targets (table : τ) (which : Row τ κ ν → Bool) : List (Row τ κ ν) :=
  rows.filter fun r => r.table = table ∧ which r

/-- The row forgets its references to rows that go. -/
def cleared (gone : List (Row τ κ ν)) (r : Row τ κ ν) : Row τ κ ν :=
  r.change fun column v =>
    if ∃ fk ∈ S.foreignKeys, (fk.onDelete = .setNull ∧ fk.column = column) ∧
        ∃ p ∈ gone, S.RefersBy r p fk then none
    else v

inductive Refusal
  | appendOnly
  | restricted
  | violated
deriving DecidableEq

/-- `DELETE FROM table WHERE which`. -/
def delete (table : τ) (which : Row τ κ ν → Bool) : Except Refusal (List (Row τ κ ν)) :=
  let gone := S.doomed rows (targets rows table which)
  if ∃ p ∈ gone, S.appendOnly p.table then .error .appendOnly
  else if ∃ p ∈ gone, ∃ r ∈ rows, S.Refers r p .restrict then .error .restricted
  else .ok ((rows.filter (· ∉ gone)).map (S.cleared gone))

def insert (row : Row τ κ ν) : Except Refusal (List (Row τ κ ν)) :=
  let after := rows ++ [row]
  if S.Integral after ∧ S.constraints after then .ok after else .error .violated

/-- `UPDATE table SET column = value WHERE which`. -/
def update (table : τ) (which : Row τ κ ν → Bool) (column : κ) (value : Option ν) :
    Except Refusal (List (Row τ κ ν)) :=
  let after := rows.map fun r =>
    if r.table = table ∧ which r then r.change fun c v => if c = column then value else v else r
  if targets rows table which ≠ [] ∧ S.appendOnly table then .error .appendOnly
  else if S.Integral after ∧ S.constraints after then .ok after else .error .violated

end Delete

section Statements

inductive Statement (τ κ ν : Type*)
  | insert (row : Row τ κ ν)
  | update (table : τ) (which : Row τ κ ν → Bool) (column : κ) (value : Option ν)
  | delete (table : τ) (which : Row τ κ ν → Bool)

def apply : Statement τ κ ν → Except Refusal (List (Row τ κ ν))
  | .insert row => S.insert rows row
  | .update table which column value => S.update rows table which column value
  | .delete table which => S.delete rows table which

/-- A statement that is refused changes nothing. -/
def execute (st : Statement τ κ ν) : Option (List (Row τ κ ν)) :=
  match S.apply rows st with
  | .ok after => some after
  | .error _ => some rows

end Statements

end Schema

section Doomed

variable {S : Schema τ κ ν} {rows : List (Row τ κ ν)}

/-- The row is deleted for its own sake, or with one that it cascades from. -/
inductive Doomed (S : Schema τ κ ν) (rows : List (Row τ κ ν)) (target : Row τ κ ν → Prop) :
    Row τ κ ν → Prop
  | target {r} (hr : r ∈ rows) (ht : target r) : Doomed S rows target r
  | cascade {r p} (hr : r ∈ rows) (href : S.Refers r p .cascade) (hp : Doomed S rows target p) :
    Doomed S rows target r

omit [DecidableEq τ] [DecidableEq ν] in
theorem Doomed.mem {target : Row τ κ ν → Prop} {r : Row τ κ ν} (h : Doomed S rows target r) :
    r ∈ rows := by
  cases h with
  | target hr => exact hr
  | cascade hr => exact hr

omit [DecidableEq τ] [DecidableEq ν] in
/-- A set of rows with the targets, and with whatever cascades from its rows, holds the doomed. -/
theorem Doomed.least {target K : Row τ κ ν → Prop} (ht : ∀ r ∈ rows, target r → K r)
    (hc : ∀ r ∈ rows, ∀ p ∈ rows, S.Refers r p .cascade → K p → K r) {r : Row τ κ ν}
    (h : Doomed S rows target r) : K r := by
  induction h with
  | target hr h => exact ht _ hr h
  | cascade hr href hp ih => exact hc _ hr _ hp.mem href ih

theorem mem_children {r p : Row τ κ ν} :
    r ∈ S.children rows p ↔ p ∈ rows ∧ r ∈ rows ∧ S.Refers r p .cascade := by
  unfold Schema.children
  split_ifs with hp <;> simp [hp]

omit [DecidableEq κ] [DecidableEq ν] in
theorem mem_targets {table : τ} {which : Row τ κ ν → Bool} {r : Row τ κ ν} :
    r ∈ Schema.targets rows table which ↔ r ∈ rows ∧ r.table = table ∧ which r := by
  simp [Schema.targets]

/-- What the walk finds is what is doomed. -/
theorem mem_doomed {table : τ} {which : Row τ κ ν → Bool} {r : Row τ κ ν} :
    r ∈ S.doomed rows (Schema.targets rows table which) ↔
      Doomed S rows (fun r => r.table = table ∧ which r) r := by
  have hdom : ∀ p, S.children rows p ≠ [] → p ∈ rows := fun p hp => by
    obtain ⟨r, hr⟩ := List.exists_mem_of_ne_nil _ hp
    exact (mem_children.1 hr).1
  obtain ⟨htargets, hclosed⟩ := Marking.walk_closed hdom _
    (Schema.targets rows table which) [] le_rfl (by simp)
  constructor
  · intro h
    refine Marking.walk_least (K := Doomed S rows _) (fun x hx => ?_) (by simp)
      (fun x hx y hy => ?_) h
    · obtain ⟨hrow, ht⟩ := mem_targets.1 hx
      exact .target hrow ht
    · obtain ⟨-, hrow, href⟩ := mem_children.1 hy
      exact .cascade hrow href hx
  · intro h
    refine h.least (K := (· ∈ S.doomed rows (Schema.targets rows table which)))
      (fun r hr ht => htargets r (mem_targets.2 ⟨hr, ht⟩)) fun r hr p hp href hgone => ?_
    exact hclosed p hgone r (mem_children.2 ⟨hp, hr, href⟩)

end Doomed

section Change

omit [DecidableEq τ] [DecidableEq ν] in
theorem value_change (r : Row τ κ ν) (f : κ → Option ν → Option ν) (column : κ)
    (hnull : ∀ c, f c none = none) : (r.change f).value column = f column (r.value column) := by
  unfold Row.value Row.change
  have hfind : (r.columns.map fun c => (c.1, f c.1 c.2)).find? (·.1 = column) =
      (r.columns.find? (·.1 = column)).map fun c => (c.1, f c.1 c.2) := List.find?_map ..
  rw [hfind]
  rcases hat : r.columns.find? (·.1 = column) with _ | c
  · simp [hat, hnull]
  · obtain rfl : c.1 = column := by simpa using List.find?_some hat
    simp [hat]

end Change

section Delete

variable {S : Schema τ κ ν} {rows after : List (Row τ κ ν)} {gone : List (Row τ κ ν)}
  {r p : Row τ κ ν} {table : τ} {which : Row τ κ ν → Bool}

theorem value_cleared (column : κ) : (S.cleared gone r).value column =
    if ∃ fk ∈ S.foreignKeys, (fk.onDelete = .setNull ∧ fk.column = column) ∧
      ∃ p ∈ gone, S.RefersBy r p fk then none else r.value column := by
  unfold Schema.cleared
  exact value_change r _ column fun c => by split_ifs <;> rfl

/-- A row forgets nothing but references. -/
theorem id_cleared (hS : S.Forgettable) : S.id (S.cleared gone r) = S.id r := by
  unfold Schema.id
  refine Prod.ext rfl (List.map_congr_left fun column hcolumn => ?_)
  rw [value_cleared, if_neg]
  rintro ⟨fk, hfk, ⟨hnull, rfl⟩, p, -, htable, -⟩
  exact hS fk hfk hnull (htable ▸ hcolumn)

/-- A row that refers to none of the rows that go stays as it is. -/
theorem cleared_of_forall (h : ∀ p ∈ gone, ¬S.Refers r p .setNull) : S.cleared gone r = r := by
  unfold Schema.cleared Row.change
  have hsame : ∀ c ∈ r.columns, (c.1, if ∃ fk ∈ S.foreignKeys,
      (fk.onDelete = .setNull ∧ fk.column = c.1) ∧ ∃ p ∈ gone, S.RefersBy r p fk
        then none else c.2) = c := by
    intro c _
    rw [if_neg]
    rintro ⟨fk, hfk, ⟨hnull, -⟩, p, hp, href⟩
    exact h p hp ⟨fk, hfk, hnull, href⟩
  rw [List.map_congr_left hsame, List.map_id']

/-- A deletion succeeds unless it would take rows of an append-only table, or rows that others hold
on to. -/
theorem delete_ok_iff : S.delete rows table which = .ok after ↔
    (∀ p, Doomed S rows (fun r => r.table = table ∧ which r) p → S.appendOnly p.table = false ∧
      ∀ r ∈ rows, ¬S.Refers r p .restrict) ∧
      after = (rows.filter (· ∉ S.doomed rows (Schema.targets rows table which))).map
        (S.cleared (S.doomed rows (Schema.targets rows table which))) := by
  unfold Schema.delete
  constructor
  · intro h
    simp only at h
    split_ifs at h with happend hrestrict
    refine ⟨fun p hp => ⟨?_, fun r hr href => ?_⟩, (Except.ok.inj h).symm⟩
    · by_contra hat
      exact happend ⟨p, mem_doomed.2 hp, by simpa using hat⟩
    · exact hrestrict ⟨p, mem_doomed.2 hp, r, hr, href⟩
  · rintro ⟨hfree, rfl⟩
    simp only
    rw [if_neg, if_neg]
    · rintro ⟨p, hp, r, hr, href⟩
      exact (hfree p (mem_doomed.1 hp)).2 r hr href
    · rintro ⟨p, hp, hat⟩
      rw [(hfree p (mem_doomed.1 hp)).1] at hat
      cases hat

/-- What is left: every row that is not doomed, without its references to rows that are. -/
theorem mem_delete (h : S.delete rows table which = .ok after) {r' : Row τ κ ν} :
    r' ∈ after ↔ ∃ r ∈ rows, ¬Doomed S rows (fun r => r.table = table ∧ which r) r ∧
      r' = S.cleared (S.doomed rows (Schema.targets rows table which)) r := by
  obtain ⟨-, rfl⟩ := delete_ok_iff.1 h
  simp only [List.mem_map, List.mem_filter, decide_eq_true_eq, mem_doomed]
  constructor
  · rintro ⟨r, ⟨hr, hstays⟩, rfl⟩
    exact ⟨r, hr, hstays, rfl⟩
  · rintro ⟨r, hr, hstays, rfl⟩
    exact ⟨r, ⟨hr, hstays⟩, rfl⟩

/-- A deletion leaves no reference dangling. -/
theorem Schema.Integral.delete (hS : S.Forgettable) (h : S.Integral rows)
    (hdel : S.delete rows table which = .ok after) : S.Integral after where
  keys := by
    obtain ⟨-, rfl⟩ := delete_ok_iff.1 hdel
    rw [List.map_map]
    have hids : S.id ∘ S.cleared (S.doomed rows (Schema.targets rows table which)) = S.id :=
      funext fun r => id_cleared hS
    rw [hids]
    exact h.keys.sublist (List.filter_sublist.map _)
  refs r' hr' fk hfk htable v hv := by
    obtain ⟨r, hr, hstays, rfl⟩ := (mem_delete hdel).1 hr'
    rw [value_cleared] at hv
    split_ifs at hv with hforgets
    · cases hv
    obtain ⟨p, hp, hid⟩ := h.refs r hr fk hfk htable v hv
    have href : S.RefersBy r p fk := ⟨htable, v, hv, hid⟩
    by_cases hgone : Doomed S rows (fun r => r.table = table ∧ which r) p
    · -- each of the three actions keeps the row from referring to one that is gone
      cases haction : fk.onDelete with
      | cascade => exact absurd (.cascade hr ⟨fk, hfk, haction, href⟩ hgone) hstays
      | setNull =>
        exact absurd ⟨fk, hfk, ⟨haction, rfl⟩, p, mem_doomed.2 hgone, href⟩ hforgets
      | restrict =>
        exact absurd ⟨fk, hfk, haction, href⟩ (((delete_ok_iff.1 hdel).1 p hgone).2 r hr)
    · exact ⟨_, (mem_delete hdel).2 ⟨p, hp, hgone, rfl⟩, (id_cleared hS).trans hid⟩

end Delete

section Statements

variable {S : Schema τ κ ν} {rows after : List (Row τ κ ν)} {st : Schema.Statement τ κ ν}

theorem Schema.Integral.execute (hS : S.Forgettable) (h : S.Integral rows)
    (hst : S.execute rows st = some after) : S.Integral after := by
  unfold Schema.execute at hst
  split at hst
  · rename_i hok
    obtain rfl := Option.some.inj hst
    cases st with
    | insert row =>
      simp only [Schema.apply, Schema.insert] at hok
      split_ifs at hok with hkept
      exact Except.ok.inj hok ▸ hkept.1
    | update table which column value =>
      simp only [Schema.apply, Schema.update] at hok
      split_ifs at hok with _ hkept
      exact Except.ok.inj hok ▸ hkept.1
    | delete table which => exact h.delete hS hok
  · exact Option.some.inj hst ▸ h

end Statements

end Referential
