import Mathlib.Data.List.AList
import Mathlib.Data.List.Induction
import Mathlib.Data.List.Nodup
import Mathlib.Logic.Function.Basic
import Mathlib.Tactic.SplitIfs

/-!
# Volumes

A volume maps paths to entries. A file is a name of an inode, which holds bytes, a mode and the time
it was last written, and one inode may have many names. Whatever stands on a volume stands in a
directory, and every inode that has a name has been handed out. No path leads through a symlink.

`Beside own v v'` says that from `v` to `v'` nothing changed for a reader who stays off the paths in
`own`. A name is `Owned` if its inode has no other, so that a write to it stays beside the rest.
-/

namespace Volumes

structure Inode where
  content : List UInt8
  mode : ℕ
  modified : ℕ
deriving DecidableEq

inductive Entry (ν : Type*)
  | file (inode : ℕ)
  /-- Some names in a directory are none that a path can spell. They are listed as they are shown. -/
  | dir (odd : List ν)
  | symlink (target : List UInt8)
  | special
deriving DecidableEq

structure Volume (ν : Type*) [DecidableEq ν] where
  entries : AList fun _ : List ν => Entry ν
  inode : ℕ → Inode
  /-- The number the next new inode gets. -/
  next : ℕ
  parent : ∀ p n e, entries.lookup (p ++ [n]) = some e →
    p = [] ∨ ∃ odd, entries.lookup p = some (.dir odd)
  allocated : ∀ p i, entries.lookup p = some (.file i) → i < next

variable {ν : Type*} [DecidableEq ν]

namespace Volume

def find (v : Volume ν) (p : List ν) : Option (Entry ν) := v.entries.lookup p

/-- The directory a path starts in is always there. -/
def isDir (v : Volume ν) (p : List ν) : Bool :=
  if p = [] then true
  else match v.find p with
    | some (.dir _) => true
    | _ => false

/-- Something that is no directory may be put here, or anything if nothing is here yet. -/
def Free (v : Volume ν) (p : List ν) : Prop := p ≠ [] ∧ v.isDir p.dropLast ∧ v.isDir p = false

instance (v : Volume ν) (p : List ν) : Decidable (v.Free p) := inferInstanceAs (Decidable (_ ∧ _))

/-- The names in a directory that a path can spell, in some order. -/
def children (v : Volume ν) (p : List ν) : List ν :=
  v.entries.keys.filterMap fun q => if q.dropLast = p then q.getLast? else none

section Facts

variable {v : Volume ν} {p q : List ν} {n : ν} {i : ℕ}

theorem isDir_iff : v.isDir p = true ↔ p = [] ∨ ∃ odd, v.find p = some (.dir odd) := by
  unfold isDir
  split_ifs with h
  · simp [h]
  · rcases v.find p with _ | (_ | _ | _ | _) <;> simp [h]

theorem isDir_of_find {odd : List ν} (h : v.find p = some (.dir odd)) : v.isDir p = true :=
  isDir_iff.2 (.inr ⟨odd, h⟩)

theorem isDir_eq_false (hp : p ≠ []) (h : ∀ odd, v.find p ≠ some (.dir odd)) :
    v.isDir p = false := by
  rw [← Bool.not_eq_true, isDir_iff]
  rintro (h' | ⟨odd, h'⟩)
  · exact hp h'
  · exact h odd h'

theorem isDir_of_child {e : Entry ν} (h : v.find (p ++ [n]) = some e) : v.isDir p = true :=
  isDir_iff.2 (v.parent p n e h)

theorem isDir_congr {v' : Volume ν} (h : v'.find p = v.find p) : v'.isDir p = v.isDir p := by
  unfold isDir
  rw [h]

/-- Below what is no directory there is nothing. -/
theorem find_below (h : v.isDir p = false) : ∀ rest : List ν, rest ≠ [] → v.find (p ++ rest) = none := by
  intro rest
  induction rest using List.reverseRecOn with
  | nil => exact fun hnil => absurd rfl hnil
  | append_singleton rest n ih =>
    intro _
    by_contra hne
    obtain ⟨e, he⟩ := Option.ne_none_iff_exists'.1 hne
    rw [← List.append_assoc] at he
    have hdir := isDir_of_child he
    by_cases hrest : rest = []
    · subst hrest
      rw [List.append_nil, h] at hdir
      cases hdir
    · rcases isDir_iff.1 hdir with hnil | ⟨odd, hodd⟩
      · simp [hrest] at hnil
      · rw [ih hrest] at hodd
        cases hodd

/-- What leads to a directory leads through directories. -/
theorem isDir_of_prefix (h : v.isDir q = true) (hp : p <+: q) : v.isDir p = true := by
  obtain ⟨rest, rfl⟩ := hp
  by_contra hdir
  rw [Bool.not_eq_true] at hdir
  by_cases hrest : rest = []
  · rw [hrest, List.append_nil, hdir] at h
    cases h
  · rcases isDir_iff.1 h with hnil | ⟨odd, hodd⟩
    · simp [hrest] at hnil
    · rw [find_below hdir rest hrest] at hodd
      cases hodd

theorem mem_children : n ∈ v.children p ↔ v.find (p ++ [n]) ≠ none := by
  unfold children
  rw [List.mem_filterMap]
  constructor
  · rintro ⟨q, hq, hn⟩
    split_ifs at hn with hp
    subst hp
    rw [List.dropLast_append_getLast? n (by simpa using hn), ← Option.isSome_iff_ne_none, find,
      AList.lookup_isSome]
    exact hq
  · intro h
    refine ⟨p ++ [n], ?_, by simp⟩
    rwa [← AList.mem_keys, ← AList.lookup_isSome, Option.isSome_iff_ne_none]

theorem children_nodup : (v.children p).Nodup := by
  unfold children
  refine List.Nodup.filterMap (fun q q' n hq hq' => ?_) v.entries.keys_nodup
  split_ifs at hq hq' with h h'
  · rw [← List.dropLast_append_getLast? n hq, ← List.dropLast_append_getLast? n hq', h, h']
  all_goals simp_all

end Facts

section Operations

variable (v : Volume ν) (p : List ν)

def put (e : Entry ν) (hp : v.Free p) (he : ∀ i, e = .file i → i < v.next) : Volume ν where
  entries := v.entries.insert p e
  inode := v.inode
  next := v.next
  parent q n e' h := by
    have hqp : q = p → v.entries.lookup (q ++ [n]) = none := by
      rintro rfl
      exact find_below hp.2.2 [n] (by simp)
    by_cases hchild : q ++ [n] = p
    · have hq : q ≠ p := by
        rintro rfl
        simp at hchild
      rw [AList.lookup_insert_ne hq]
      have hdir := hp.2.1
      rw [← hchild, List.dropLast_concat] at hdir
      exact isDir_iff.1 hdir
    · rw [AList.lookup_insert_ne hchild] at h
      have hq : q ≠ p := fun hq => by
        rw [hqp hq] at h
        cases h
      rw [AList.lookup_insert_ne hq]
      exact v.parent q n e' h
  allocated q i h := by
    by_cases hq : q = p
    · subst hq
      rw [AList.lookup_insert, Option.some.injEq] at h
      exact he i h
    · rw [AList.lookup_insert_ne hq] at h
      exact v.allocated q i h

def erase (hp : v.isDir p = false) : Volume ν where
  entries := v.entries.erase p
  inode := v.inode
  next := v.next
  parent q n e h := by
    have hqn : q ++ [n] ≠ p := by
      rintro rfl
      rw [AList.lookup_erase] at h
      cases h
    rw [AList.lookup_erase_ne hqn] at h
    have hq : q ≠ p := by
      rintro rfl
      rw [show v.entries.lookup (q ++ [n]) = none from find_below hp [n] (by simp)] at h
      cases h
    rw [AList.lookup_erase_ne hq]
    exact v.parent q n e h
  allocated q i h := by
    have hq : q ≠ p := by
      rintro rfl
      rw [AList.lookup_erase] at h
      cases h
    rw [AList.lookup_erase_ne hq] at h
    exact v.allocated q i h

def setInode (i : ℕ) (inode : Inode) : Volume ν :=
  { v with inode := Function.update v.inode i inode }

/-- A new inode that has no name yet. -/
def alloc (inode : Inode) : Volume ν :=
  { v with
    inode := Function.update v.inode v.next inode
    next := v.next + 1
    allocated := fun p i h => Nat.lt_succ_of_lt (v.allocated p i h) }

/-- A new file. -/
def create (inode : Inode) (hp : v.Free p) : Volume ν :=
  (v.alloc inode).put p (.file v.next) hp fun _ h => by
    cases h
    exact Nat.lt_succ_self _

variable {v p} {q : List ν} {e : Entry ν} {inode : Inode} {i j : ℕ}

theorem find_put (hp : v.Free p) (he : ∀ i, e = .file i → i < v.next) :
    (v.put p e hp he).find q = if q = p then some e else v.find q := by
  split_ifs with h
  · subst h
    exact AList.lookup_insert _
  · exact AList.lookup_insert_ne h

@[simp] theorem inode_put (hp : v.Free p) (he : ∀ i, e = .file i → i < v.next) :
    (v.put p e hp he).inode = v.inode := rfl

theorem find_erase (hp : v.isDir p = false) :
    (v.erase p hp).find q = if q = p then none else v.find q := by
  split_ifs with h
  · subst h
    exact AList.lookup_erase _ _
  · exact AList.lookup_erase_ne h

@[simp] theorem inode_erase (hp : v.isDir p = false) : (v.erase p hp).inode = v.inode := rfl

@[simp] theorem find_setInode : (v.setInode i inode).find q = v.find q := rfl

theorem inode_setInode : (v.setInode i inode).inode j = if j = i then inode else v.inode j :=
  Function.update_apply ..

@[simp] theorem find_alloc : (v.alloc inode).find q = v.find q := rfl

theorem find_create (hp : v.Free p) :
    (v.create p inode hp).find q = if q = p then some (.file v.next) else v.find q :=
  find_put (v := v.alloc inode) hp _

theorem inode_create (hp : v.Free p) :
    (v.create p inode hp).inode j = if j = v.next then inode else v.inode j :=
  Function.update_apply ..

theorem isDir_put (hp : v.Free p) (he : ∀ i, e = .file i → i < v.next) (hq : q ≠ p) :
    (v.put p e hp he).isDir q = v.isDir q :=
  isDir_congr (by rw [find_put, if_neg hq])

theorem isDir_erase (hp : v.isDir p = false) (hq : q ≠ p) :
    (v.erase p hp).isDir q = v.isDir q :=
  isDir_congr (by rw [find_erase, if_neg hq])

theorem lt_next (h : v.find p = some (.file i)) : i < v.next := v.allocated p i h

end Operations

end Volume

open Volume

section Frames

/-- Nothing changed for a reader who stays off these paths. -/
structure Beside (own : List ν → Prop) (v v' : Volume ν) : Prop where
  find : ∀ {q}, ¬ own q → v'.find q = v.find q
  inode : ∀ {q i}, ¬ own q → v.find q = some (.file i) → v'.inode i = v.inode i

/-- The inode that this names has no other name. -/
def Owned (v : Volume ν) (p : List ν) : Prop :=
  ∀ i, v.find p = some (.file i) → ∀ q, v.find q = some (.file i) → q = p

variable {own : List ν → Prop} {v v' v'' : Volume ν} {p q : List ν} {e : Entry ν} {inode : Inode}
  {i : ℕ}

theorem Beside.refl (v : Volume ν) : Beside own v v := ⟨fun _ => rfl, fun _ _ => rfl⟩

theorem Beside.trans (h : Beside own v v') (h' : Beside own v' v'') : Beside own v v'' where
  find hq := (h'.find hq).trans (h.find hq)
  inode hq hi := (h'.inode hq ((h.find hq).trans hi)).trans (h.inode hq hi)

theorem Beside.mono {own' : List ν → Prop} (h : Beside own v v') (hown : ∀ q, own q → own' q) :
    Beside own' v v' :=
  ⟨fun hq => h.find fun ho => hq (hown _ ho), fun hq => h.inode fun ho => hq (hown _ ho)⟩

theorem beside_put (hp : v.Free p) (he : ∀ i, e = .file i → i < v.next) (hown : own p) :
    Beside own v (v.put p e hp he) where
  find {q} hq := by
    have hne : q ≠ p := fun h => hq (h ▸ hown)
    rw [find_put, if_neg hne]
  inode _ _ := rfl

theorem beside_erase (hp : v.isDir p = false) (hown : own p) : Beside own v (v.erase p hp) where
  find {q} hq := by
    have hne : q ≠ p := fun h => hq (h ▸ hown)
    rw [find_erase, if_neg hne]
  inode _ _ := rfl

theorem beside_setInode (h : ∀ q, v.find q = some (.file i) → own q) :
    Beside own v (v.setInode i inode) where
  find _ := rfl
  inode {q j} hq hj := by
    have hji : j ≠ i := fun hji => hq (h q (hji ▸ hj))
    rw [inode_setInode, if_neg hji]

theorem Owned.beside_setInode (h : Owned v p) (hi : v.find p = some (.file i)) (hown : own p) :
    Beside own v (v.setInode i inode) :=
  Volumes.beside_setInode fun q hq => h i hi q hq ▸ hown

theorem beside_create (hp : v.Free p) (hown : own p) : Beside own v (v.create p inode hp) where
  find {q} hq := by
    have hne : q ≠ p := fun h => hq (h ▸ hown)
    rw [find_create, if_neg hne]
  inode {q j} _ hj := by
    have hne : j ≠ v.next := Nat.ne_of_lt (lt_next hj)
    rw [inode_create, if_neg hne]

theorem owned_of_find_none (h : v.find p = none) : Owned v p := fun i hi => by
  rw [h] at hi
  cases hi

theorem owned_create (hp : v.Free p) : Owned (v.create p inode hp) p := by
  intro i hi q hq
  rw [find_create, if_pos rfl, Option.some.injEq, Entry.file.injEq] at hi
  subst hi
  by_contra hne
  rw [find_create, if_neg hne] at hq
  exact Nat.lt_irrefl _ (lt_next hq)

theorem Owned.setInode (h : Owned v p) : Owned (v.setInode i inode) p := h

theorem Beside.isDir (h : Beside own v v') (hq : ¬ own q) : v'.isDir q = v.isDir q :=
  isDir_congr (h.find hq)

end Frames

section Pruning

/-- From `v` to `v'` nothing changed, but some of what stood at the paths in `gone` may be missing.
-/
structure Pruned (gone : List ν → Prop) (v v' : Volume ν) : Prop where
  find : ∀ p, v'.find p = v.find p ∨ gone p ∧ v'.find p = none
  inode : v'.inode = v.inode

namespace Pruned

variable {gone : List ν → Prop} {v v' v'' : Volume ν} {p : List ν}

theorem refl (v : Volume ν) : Pruned gone v v := ⟨fun _ => .inl rfl, rfl⟩

theorem trans (h : Pruned gone v v') (h' : Pruned gone v' v'') : Pruned gone v v'' where
  find p := by
    rcases h'.find p with hp | hp
    · rw [hp]
      exact h.find p
    · exact .inr hp
  inode := h'.inode.trans h.inode

theorem erase (hp : v.isDir p = false) (hgone : gone p) : Pruned gone v (v.erase p hp) where
  find q := by
    rw [find_erase]
    split_ifs with hq
    · exact .inr ⟨hq ▸ hgone, rfl⟩
    · exact .inl rfl
  inode := rfl

theorem of_find {e : Entry ν} (h : Pruned gone v v') (he : v'.find p = some e) :
    v.find p = some e := by
  rcases h.find p with hp | ⟨-, hp⟩
  · exact hp.symm.trans he
  · rw [hp] at he
    cases he

theorem find_eq (h : Pruned gone v v') (hp : ¬gone p) : v'.find p = v.find p :=
  (h.find p).resolve_right fun hgone => hp hgone.1

end Pruned

end Pruning

section Spots

/-- Where a file may come to stand: nothing is there yet, or a file of its own inode. -/
structure Spot (v : Volume ν) (p : List ν) : Prop where
  free : v.Free p
  file : ∀ e, v.find p = some e → ∃ i, e = .file i
  owned : Owned v p

/-- From `v₀` to `v` nothing changed but what stands at one spot. -/
structure Replacing (v₀ : Volume ν) (p : List ν) (v : Volume ν) : Prop where
  beside : Beside (· = p) v₀ v
  spot : Spot v p

variable {v v₀ : Volume ν} {p q : List ν} {inode : Inode} {i : ℕ}

omit [DecidableEq ν] in
theorem dropLast_ne (hp : p ≠ []) : p.dropLast ≠ p := fun h => by
  have hlen := congrArg List.length h
  have hpos := List.length_pos_of_ne_nil hp
  rw [List.length_dropLast] at hlen
  omega

theorem Volume.Free.congr (h : v₀.Free p) (hbeside : Beside (· = p) v₀ v)
    (hp : ∀ odd, v.find p ≠ some (.dir odd)) : v.Free p :=
  ⟨h.1, (hbeside.isDir (dropLast_ne h.1)).trans h.2.1, isDir_eq_false h.1 hp⟩

theorem spot_of_find_none (hfree : v.Free p) (h : v.find p = none) : Spot v p :=
  ⟨hfree, fun e he => absurd (h.symm.trans he) (by simp), owned_of_find_none h⟩

theorem Spot.replacing (h : Spot v p) : Replacing v p v := ⟨.refl v, h⟩

namespace Replacing

theorem erase (h : Replacing v₀ p v) (hp : v.isDir p = false) : Replacing v₀ p (v.erase p hp) := by
  have hbeside : Beside (· = p) v (v.erase p hp) := beside_erase hp rfl
  have hnone : (v.erase p hp).find p = none := by rw [find_erase, if_pos rfl]
  exact ⟨h.beside.trans hbeside,
    spot_of_find_none (h.spot.free.congr hbeside (by simp [hnone])) hnone⟩

theorem create (h : Replacing v₀ p v) (hp : v.Free p) : Replacing v₀ p (v.create p inode hp) := by
  have hbeside : Beside (· = p) v (v.create p inode hp) := beside_create hp rfl
  have hfile : (v.create p inode hp).find p = some (.file v.next) := by rw [find_create, if_pos rfl]
  refine ⟨h.beside.trans hbeside, h.spot.free.congr hbeside (by simp [hfile]), fun e he => ?_,
    owned_create hp⟩
  exact ⟨v.next, (Option.some.inj (hfile.symm.trans he)).symm⟩

theorem setInode (h : Replacing v₀ p v) (hi : v.find p = some (.file i)) :
    Replacing v₀ p (v.setInode i inode) :=
  ⟨h.beside.trans (h.spot.owned.beside_setInode hi rfl), h.spot.free, h.spot.file, h.spot.owned⟩

theorem find_eq (h : Replacing v₀ p v) (hq : q ≠ p) : v.find q = v₀.find q := h.beside.find hq

theorem inode_eq (h : Replacing v₀ p v) (hq : q ≠ p) (hi : v₀.find q = some (.file i)) :
    v.inode i = v₀.inode i :=
  h.beside.inode hq hi

end Replacing

end Spots

end Volumes
