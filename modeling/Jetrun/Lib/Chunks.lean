import Mathlib.Data.List.Basic

/-!
# Streams that arrive in pieces

A stream is the list of the pieces it arrives in, and ends with the last. Reading an exact number of
items takes them from as many pieces as it needs and leaves what it does not need of the last one.
Where a stream is cut makes no difference to what is read from it (`readExact_flatten`).
-/

namespace Chunks

variable {α : Type*}

/-- The next `n` items and what is left, if the stream does not end before. -/
def readExact (n : ℕ) : List (List α) → Option (List α × List (List α))
  | [] => if n = 0 then some ([], []) else none
  | chunk :: chunks =>
    if n ≤ chunk.length then some (chunk.take n, chunk.drop n :: chunks)
    else (readExact (n - chunk.length) chunks).map fun (items, chunks) => (chunk ++ items, chunks)

/-- The same stream, in one piece. -/
def whole (r : List α × List (List α)) : List α × List α := (r.1, r.2.flatten)

theorem readExact_flatten : ∀ (n : ℕ) (chunks : List (List α)),
    (readExact n chunks).map whole =
      if chunks.flatten.length < n then none
      else some (chunks.flatten.take n, chunks.flatten.drop n)
  | n, [] => by
    rcases Nat.eq_zero_or_pos n with rfl | hn
    · rfl
    · simp [readExact, hn, Nat.ne_of_gt hn]
  | n, chunk :: chunks => by
    simp only [readExact, List.flatten_cons]
    split_ifs with hle hlt hlt
    · rw [List.length_append] at hlt
      omega
    · simp [whole, List.take_append_of_le_length hle, List.drop_append_of_le_length hle]
    · have ih := readExact_flatten (n - chunk.length) chunks
      rw [List.length_append] at hlt
      rw [if_pos (by omega)] at ih
      rw [Option.map_eq_none_iff] at ih
      simp [ih]
    · have ih := readExact_flatten (n - chunk.length) chunks
      rw [List.length_append] at hlt
      rw [if_neg (by omega)] at ih
      obtain ⟨r, hr, hwhole⟩ := Option.map_eq_some_iff.1 ih
      rw [List.take_append, List.drop_append, List.take_of_length_le (by omega),
        List.drop_of_length_le (by omega), List.nil_append]
      rw [whole, Prod.mk.injEq] at hwhole
      simp [hr, whole, hwhole]

theorem readExact_eq_none {n : ℕ} {chunks : List (List α)} :
    readExact n chunks = none ↔ chunks.flatten.length < n := by
  have h := readExact_flatten n chunks
  split_ifs at h with hlt
  · exact iff_of_true (Option.map_eq_none_iff.1 h) hlt
  · obtain ⟨r, hr, -⟩ := Option.map_eq_some_iff.1 h
    exact iff_of_false (by simp [hr]) hlt

/-- What is read and what is left are the stream. -/
theorem readExact_eq_some {n : ℕ} {chunks rest : List (List α)} {items : List α}
    (h : readExact n chunks = some (items, rest)) :
    items.length = n ∧ items = chunks.flatten.take n ∧ rest.flatten = chunks.flatten.drop n := by
  have hflat := readExact_flatten n chunks
  rw [h] at hflat
  split_ifs at hflat with hlt
  · cases hflat
  · rw [Option.map_some, Option.some.injEq, whole, Prod.mk.injEq] at hflat
    simp only [] at hflat
    exact ⟨by rw [hflat.1, List.length_take_of_le (by omega)], hflat⟩

end Chunks
