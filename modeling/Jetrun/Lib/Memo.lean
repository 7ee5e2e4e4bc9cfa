import Mathlib.Logic.Function.Basic

/-!
# Remembered answers

A table in front of a question: the first request of a key stores its answer, and every later one
of the same key is given what is stored. Such a table changes no answer exactly when requests that
share a key have the same answer.
-/

namespace Memo

variable {ι κ α : Type*} [DecidableEq κ] (key : ι → Option κ) (answer : ι → α)

/-- A request without a key is answered afresh. -/
def lookup (table : κ → Option α) (i : ι) : α × (κ → Option α) :=
  match key i with
  | none => (answer i, table)
  | some k =>
    match table k with
    | some a => (a, table)
    | none => (answer i, Function.update table k (some (answer i)))

def answers : (κ → Option α) → List ι → List α
  | _, [] => []
  | table, i :: is => (lookup key answer table i).1 :: answers (lookup key answer table i).2 is

section Transparent

variable {key answer}

theorem lookup_none {table : κ → Option α} {i : ι} (h : key i = none) :
    lookup key answer table i = (answer i, table) := by
  simp [lookup, h]

theorem lookup_hit {table : κ → Option α} {i : ι} {k : κ} {a : α} (h : key i = some k)
    (ht : table k = some a) : lookup key answer table i = (a, table) := by
  simp [lookup, h, ht]

theorem lookup_miss {table : κ → Option α} {i : ι} {k : κ} (h : key i = some k)
    (ht : table k = none) :
    lookup key answer table i = (answer i, Function.update table k (some (answer i))) := by
  simp [lookup, h, ht]

variable (key answer) in
/-- Every answer the table holds is right for every request that would be given it. -/
def Right (table : κ → Option α) (is : List ι) : Prop :=
  ∀ i ∈ is, ∀ k a, key i = some k → table k = some a → answer i = a

theorem right_update {table : κ → Option α} {k : κ} (ht : table k = none) (a : α) (is : List ι) :
    Right key answer (Function.update table k (some a)) is ↔
      Right key answer table is ∧ ∀ j ∈ is, key j = some k → answer j = a := by
  constructor
  · intro h
    refine ⟨fun j hj k' b hkj hb => h j hj k' b hkj ?_, fun j hj hkj => ?_⟩
    · have hne : k' ≠ k := by
        rintro rfl
        simp [ht] at hb
      rw [Function.update_of_ne hne, hb]
    · exact h j hj k a hkj (Function.update_self ..)
  · rintro ⟨hold, hnew⟩ j hj k' b hkj hb
    by_cases he : k' = k
    · subst he
      rw [Function.update_self, Option.some.injEq] at hb
      exact hb ▸ hnew j hj hkj
    · rw [Function.update_of_ne he] at hb
      exact hold j hj k' b hkj hb

variable (key answer) in
def OneAnswer (is : List ι) : Prop :=
  ∀ i ∈ is, ∀ j ∈ is, ∀ k, key i = some k → key j = some k → answer i = answer j

omit [DecidableEq κ] in
theorem oneAnswer_cons (i : ι) (is : List ι) :
    OneAnswer key answer (i :: is) ↔
      OneAnswer key answer is ∧ ∀ j ∈ is, ∀ k, key i = some k → key j = some k →
        answer j = answer i := by
  constructor
  · intro h
    refine ⟨fun j hj l hl => h j (List.mem_cons_of_mem _ hj) l (List.mem_cons_of_mem _ hl), ?_⟩
    intro j hj k hki hkj
    exact h j (List.mem_cons_of_mem _ hj) i List.mem_cons_self k hkj hki
  · rintro ⟨h, hi⟩ j hj l hl k hkj hkl
    rcases List.mem_cons.1 hj with rfl | hj'
    · rcases List.mem_cons.1 hl with rfl | hl'
      · rfl
      · exact (hi l hl' k hkj hkl).symm
    · rcases List.mem_cons.1 hl with rfl | hl'
      · exact hi j hj' k hkl hkj
      · exact h j hj' l hl' k hkj hkl

/-- No request is given a wrong answer if and only if what the table holds at the start is right for
the requests to come, and requests that share a key have one answer. -/
theorem answers_eq_map_iff : ∀ (is : List ι) (table : κ → Option α),
    answers key answer table is = is.map answer ↔
      Right key answer table is ∧ OneAnswer key answer is
  | [], table => by simp [answers, Right, OneAnswer]
  | i :: is, table => by
    have hright : Right key answer table (i :: is) ↔
        (∀ k a, key i = some k → table k = some a → answer i = a) ∧
          Right key answer table is := by
      simp [Right]
    rw [answers, List.map_cons, List.cons.injEq, answers_eq_map_iff is, oneAnswer_cons, hright]
    rcases hk : key i with _ | k
    · rw [lookup_none hk]
      simp
    rcases ht : table k with _ | a
    · rw [lookup_miss hk ht, right_update ht]
      constructor
      · rintro ⟨-, ⟨hold, hnew⟩, hsame⟩
        refine ⟨⟨fun k' a hk' ha => ?_, hold⟩, hsame, fun j hj k' hk' hkj => ?_⟩
        · cases hk'
          simp [ht] at ha
        · cases hk'
          exact hnew j hj hkj
      · rintro ⟨⟨-, hold⟩, hsame, hi⟩
        exact ⟨rfl, ⟨hold, fun j hj => hi j hj k rfl⟩, hsame⟩
    · rw [lookup_hit hk ht]
      constructor
      · rintro ⟨rfl, hold, hsame⟩
        refine ⟨⟨fun k' b hk' hb => ?_, hold⟩, hsame, fun j hj k' hk' hkj => ?_⟩
        · cases hk'
          exact Option.some.inj (ht.symm.trans hb)
        · cases hk'
          exact hold j hj k _ hkj ht
      · rintro ⟨⟨hi, hold⟩, hsame, -⟩
        exact ⟨(hi k a rfl ht).symm, hold, hsame⟩

/-- A table that starts empty changes no answer exactly when requests that share a key have the
same answer. -/
theorem answers_empty_iff (is : List ι) :
    answers key answer (fun _ => none) is = is.map answer ↔ OneAnswer key answer is := by
  have hempty : Right key answer (fun _ => none) is := fun _ _ _ _ _ ha => absurd ha (by simp)
  rw [answers_eq_map_iff, and_iff_right hempty]

end Transparent

end Memo
