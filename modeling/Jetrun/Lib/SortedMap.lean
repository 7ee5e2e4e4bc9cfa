import Mathlib.Order.Lattice
import Mathlib.Data.List.Pairwise
import Mathlib.Order.Defs.LinearOrder
import Mathlib.Tactic.SplitIfs
import Mathlib.Tactic.Tauto

/-!
# Maps kept as a sorted list of entries

A `SortedMap` lists its entries by strictly increasing key, so one map has one list of entries and
no key stands in it twice. `insert` replaces the value of a key that is there.
-/

/-- A map with its entries in the order of their keys. -/
structure SortedMap (κ ν : Type*) [LinearOrder κ] where
  entries : List (κ × ν)
  sorted : entries.Pairwise fun a b => a.1 < b.1

namespace SortedMap

variable {κ ν : Type*} [LinearOrder κ]

theorem ext_entries : ∀ {m m' : SortedMap κ ν}, m.entries = m'.entries → m = m'
  | ⟨_, _⟩, ⟨_, _⟩, rfl => rfl

def empty : SortedMap κ ν := ⟨[], .nil⟩

def keys (m : SortedMap κ ν) : List κ := m.entries.map Prod.fst

def values (m : SortedMap κ ν) : List ν := m.entries.map Prod.snd

def get? (m : SortedMap κ ν) (k : κ) : Option ν := m.entries.lookup k

/-- The entries with `k` mapped to `v`, whatever it was mapped to before. -/
def insertEntry (k : κ) (v : ν) : List (κ × ν) → List (κ × ν)
  | [] => [(k, v)]
  | e :: es =>
    if k < e.1 then (k, v) :: e :: es
    else if k = e.1 then (k, v) :: es
    else e :: insertEntry k v es

theorem mem_insertEntry {k : κ} {v : ν} {e : κ × ν} :
    ∀ {es : List (κ × ν)}, e ∈ insertEntry k v es → e = (k, v) ∨ e ∈ es
  | [], h => .inl (by simpa [insertEntry] using h)
  | a :: es, h => by
    simp only [insertEntry] at h
    split_ifs at h
    · rcases List.mem_cons.1 h with rfl | h
      · exact .inl rfl
      · exact .inr h
    · rcases List.mem_cons.1 h with rfl | h
      · exact .inl rfl
      · exact .inr (List.mem_cons_of_mem _ h)
    · rcases List.mem_cons.1 h with rfl | h
      · exact .inr List.mem_cons_self
      · exact (mem_insertEntry h).imp_right (List.mem_cons_of_mem _)

theorem sorted_insertEntry {k : κ} {v : ν} :
    ∀ {es : List (κ × ν)}, es.Pairwise (fun a b => a.1 < b.1) →
      (insertEntry k v es).Pairwise fun a b => a.1 < b.1
  | [], _ => List.pairwise_singleton _ _
  | a :: es, h => by
    obtain ⟨ha, hes⟩ := List.pairwise_cons.1 h
    simp only [insertEntry]
    split_ifs with h1 h2
    · refine List.pairwise_cons.2 ⟨fun e he => ?_, h⟩
      rcases List.mem_cons.1 he with rfl | he
      · exact h1
      · exact lt_trans h1 (ha e he)
    · exact List.pairwise_cons.2 ⟨fun e he => h2 ▸ ha e he, hes⟩
    · refine List.pairwise_cons.2 ⟨fun e he => ?_, sorted_insertEntry hes⟩
      rcases mem_insertEntry he with rfl | he
      · exact lt_of_le_of_ne (not_lt.1 h1) (Ne.symm h2)
      · exact ha e he

def insert (m : SortedMap κ ν) (k : κ) (v : ν) : SortedMap κ ν :=
  ⟨insertEntry k v m.entries, sorted_insertEntry m.sorted⟩

theorem keys_nodup (m : SortedMap κ ν) : m.keys.Nodup :=
  (List.pairwise_map.2 m.sorted).imp fun h => ne_of_lt h

theorem mem_insertEntry_of_notMem {k : κ} {v : ν} {e : κ × ν} :
    ∀ {es : List (κ × ν)}, k ∉ es.map Prod.fst → (e ∈ insertEntry k v es ↔ e = (k, v) ∨ e ∈ es)
  | [], _ => by simp [insertEntry]
  | a :: es, h => by
    rw [List.map_cons, List.mem_cons, not_or] at h
    simp only [insertEntry]
    split_ifs with h1 h2
    · exact List.mem_cons
    · exact absurd h2 h.1
    · rw [List.mem_cons, List.mem_cons, mem_insertEntry_of_notMem h.2]
      tauto

/-- The entries after a new key was inserted. -/
theorem mem_insert {m : SortedMap κ ν} {k : κ} {v : ν} {e : κ × ν} (h : k ∉ m.keys) :
    e ∈ (m.insert k v).entries ↔ e = (k, v) ∨ e ∈ m.entries :=
  mem_insertEntry_of_notMem h

/-- A map is what is in it. -/
theorem ext_mem {m m' : SortedMap κ ν} (h : ∀ e, e ∈ m.entries ↔ e ∈ m'.entries) : m = m' := by
  have hne : ∀ {m : SortedMap κ ν}, m.entries.Nodup := fun {m} => by
    refine m.sorted.imp fun hlt heq => ?_
    rw [heq] at hlt
    exact lt_irrefl _ hlt
  refine ext_entries (List.Perm.eq_of_pairwise (fun a b _ _ hab hba => ?_) m.sorted m'.sorted
    ((List.perm_ext_iff_of_nodup hne hne).2 h))
  exact absurd hab (lt_asymm hba)

theorem length_insertEntry {k : κ} {v : ν} :
    ∀ {es : List (κ × ν)}, k ∉ es.map Prod.fst → (insertEntry k v es).length = es.length + 1
  | [], _ => rfl
  | a :: es, h => by
    rw [List.map_cons, List.mem_cons, not_or] at h
    simp only [insertEntry]
    split_ifs with h1 h2
    · rfl
    · exact absurd h2 h.1
    · rw [List.length_cons, length_insertEntry h.2, List.length_cons]

/-- A key above every other goes last. -/
theorem insertEntry_last {k : κ} {v : ν} :
    ∀ {es : List (κ × ν)}, (∀ e ∈ es, e.1 < k) → insertEntry k v es = es ++ [(k, v)]
  | [], _ => rfl
  | a :: es, h => by
    have ha : a.1 < k := h a List.mem_cons_self
    simp only [insertEntry, if_neg (lt_asymm ha), if_neg (ne_of_gt ha), List.cons_append,
      insertEntry_last fun e he => h e (List.mem_cons_of_mem _ he)]

theorem entries_insert_last {m : SortedMap κ ν} {k : κ} {v : ν} (h : ∀ e ∈ m.entries, e.1 < k) :
    (m.insert k v).entries = m.entries ++ [(k, v)] :=
  insertEntry_last h

end SortedMap
