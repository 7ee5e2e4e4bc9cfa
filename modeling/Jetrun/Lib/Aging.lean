import Mathlib.Logic.Function.Basic
import Mathlib.Order.Nat
import Mathlib.Tactic.SplitIfs

/-!
# Emptying places that are old, without a lock

Writers fill places that are to be filled once: a writer sees that its place is empty, prepares what
goes there, and puts it there with a stamp, a time since it looked. What was put may be touched
through a handle that a writer has kept. Sweepers empty places whose stamp is old. A sweeper reads
the stamp in one step and empties the place in another, and no lock keeps a writer out in between.

A writer takes at most `limit` from its look on. Then a sweeper that works alone and condemns what
is older than twice that never empties a place that was filled anew (`Guarded.doomed`), and what was
put is there until it is nearly `age` old (`Guarded.kept`).
-/

namespace Aging

@[ext] structure Store (κ : Type*) where
  clock : ℕ
  stamp : κ → Option ℕ
  /-- The place a writer saw empty, and when. -/
  writers : ℕ → Option (κ × ℕ)
  /-- The place a sweeper is about to empty, and the clock it goes by. -/
  sweepers : ℕ → Option (κ × ℕ)
  /-- What was put, and when. For the record only. -/
  puts : List (κ × ℕ)

variable {κ : Type*} [DecidableEq κ]

namespace Store

open Function

variable (s : Store κ)

def wait (elapsed : ℕ) : Store κ := { s with clock := s.clock + elapsed }

def setStamp (k : κ) (m : Option ℕ) : Store κ := { s with stamp := update s.stamp k m }

def setWriter (w : ℕ) (look : Option (κ × ℕ)) : Store κ :=
  { s with writers := update s.writers w look }

def setSweeper (c : ℕ) (doom : Option (κ × ℕ)) : Store κ :=
  { s with sweepers := update s.sweepers c doom }

def record (k : κ) : Store κ := { s with puts := (k, s.clock) :: s.puts }

theorem stamp_setStamp (k l : κ) (m : Option ℕ) :
    (s.setStamp k m).stamp l = if l = k then m else s.stamp l :=
  update_apply ..

omit [DecidableEq κ] in
theorem writers_setWriter (w v : ℕ) (look : Option (κ × ℕ)) :
    (s.setWriter w look).writers v = if v = w then look else s.writers v :=
  update_apply ..

omit [DecidableEq κ] in
theorem sweepers_setSweeper (c b : ℕ) (doom : Option (κ × ℕ)) :
    (s.setSweeper c doom).sweepers b = if b = c then doom else s.sweepers b :=
  update_apply ..

end Store

inductive Step (limit age : ℕ) (s : Store κ) : Store κ → Prop
  | tick (elapsed : ℕ) : Step limit age s (s.wait elapsed)
  | look (w : ℕ) {k : κ} (hempty : s.stamp k = none) :
    Step limit age s (s.setWriter w (some (k, s.clock)))
  | quit (w : ℕ) : Step limit age s (s.setWriter w none)
  | put {w : ℕ} {k : κ} {since m : ℕ} (hw : s.writers w = some (k, since)) (hm : since ≤ m)
    (hlimit : s.clock ≤ since + limit) :
    Step limit age s (((s.setStamp k (some m)).setWriter w none).record k)
  | touch {k : κ} {since m : ℕ} (hk : s.stamp k = some m) (hm : since ≤ m)
    (hlimit : s.clock ≤ since + limit) : Step limit age s (s.setStamp k (some s.clock))
  | condemn (c : ℕ) {k : κ} {m reading : ℕ} (hk : s.stamp k = some m) (hold : m + age ≤ reading)
    (hreading : reading ≤ s.clock) (halone : ∀ b, s.sweepers b = none) :
    Step limit age s (s.setSweeper c (some (k, reading)))
  | spare (c : ℕ) : Step limit age s (s.setSweeper c none)
  | empty {c : ℕ} {k : κ} {reading : ℕ} (hc : s.sweepers c = some (k, reading)) :
    Step limit age s ((s.setStamp k none).setSweeper c none)

structure Guarded (limit age : ℕ) (s : Store κ) : Prop where
  /-- A writer looked before its place was filled. -/
  looked : ∀ w k since, s.writers w = some (k, since) →
    since ≤ s.clock ∧ ∀ m, s.stamp k = some m → since ≤ m + limit
  /-- What is condemned is old, still. -/
  doomed : ∀ c k reading, s.sweepers c = some (k, reading) →
    reading ≤ s.clock ∧ ∃ m, s.stamp k = some m ∧ m + age ≤ reading
  alone : ∀ b c, s.sweepers b ≠ none → s.sweepers c ≠ none → b = c
  kept : ∀ k put, (k, put) ∈ s.puts → put ≤ s.clock ∧
    ((∃ m, s.stamp k = some m ∧ put ≤ m + limit) ∨ put + age ≤ s.clock + limit)

variable {limit age : ℕ} {s s' : Store κ}

omit [DecidableEq κ] in
theorem Guarded.wait (hg : Guarded limit age s) (elapsed : ℕ) :
    Guarded limit age (s.wait elapsed) where
  looked w k since h := (hg.looked w k since h).imp_left Nat.le_add_right_of_le
  doomed c k reading h := (hg.doomed c k reading h).imp_left Nat.le_add_right_of_le
  alone := hg.alone
  kept k put h := by
    obtain ⟨hclock, hkept⟩ := hg.kept k put h
    refine ⟨Nat.le_add_right_of_le hclock, hkept.imp_right fun hgone => ?_⟩
    show put + age ≤ s.clock + elapsed + limit
    omega

omit [DecidableEq κ] in
theorem Guarded.quit (hg : Guarded limit age s) (w : ℕ) :
    Guarded limit age (s.setWriter w none) where
  looked v k since h := by
    rw [s.writers_setWriter] at h
    split_ifs at h
    exact hg.looked v k since h
  doomed := hg.doomed
  alone := hg.alone
  kept := hg.kept

omit [DecidableEq κ] in
theorem Guarded.look (hg : Guarded limit age s) (w : ℕ) {k : κ} (hempty : s.stamp k = none) :
    Guarded limit age (s.setWriter w (some (k, s.clock))) where
  looked v l since h := by
    rw [s.writers_setWriter] at h
    split_ifs at h
    · cases h
      refine ⟨le_refl s.clock, fun m hm => ?_⟩
      rw [show s.stamp k = some m from hm] at hempty
      cases hempty
    · exact hg.looked v l since h
  doomed := hg.doomed
  alone := hg.alone
  kept := hg.kept

omit [DecidableEq κ] in
theorem Guarded.spare (hg : Guarded limit age s) (c : ℕ) :
    Guarded limit age (s.setSweeper c none) where
  looked := hg.looked
  doomed b k reading h := by
    rw [s.sweepers_setSweeper] at h
    split_ifs at h
    exact hg.doomed b k reading h
  alone a b ha hb := by
    rw [s.sweepers_setSweeper] at ha hb
    split_ifs at ha hb
    · exact absurd rfl ha
    · exact absurd rfl ha
    · exact absurd rfl hb
    · exact hg.alone a b ha hb
  kept := hg.kept

omit [DecidableEq κ] in
theorem Guarded.condemn (hg : Guarded limit age s) (c : ℕ) {k : κ} {m reading : ℕ}
    (hk : s.stamp k = some m) (hold : m + age ≤ reading) (hreading : reading ≤ s.clock)
    (halone : ∀ b, s.sweepers b = none) :
    Guarded limit age (s.setSweeper c (some (k, reading))) where
  looked := hg.looked
  doomed b l r h := by
    rw [s.sweepers_setSweeper] at h
    split_ifs at h
    · cases h
      exact ⟨hreading, m, hk, hold⟩
    · rw [halone] at h
      cases h
  alone a b ha hb := by
    rw [s.sweepers_setSweeper] at ha hb
    split_ifs at ha hb with hac hbc hbc
    · rw [hac, hbc]
    · exact absurd (halone b) hb
    · exact absurd (halone a) ha
    · exact absurd (halone a) ha
  kept := hg.kept

/-- Emptying a place takes what is old by then, and the only sweeper that condemned it is done. -/
theorem Guarded.empty (hg : Guarded limit age s) {c : ℕ} {k : κ} {reading : ℕ}
    (hc : s.sweepers c = some (k, reading)) :
    Guarded limit age ((s.setStamp k none).setSweeper c none) where
  looked w l since h := by
    obtain ⟨hclock, hle⟩ := hg.looked w l since h
    refine ⟨hclock, fun m hm => ?_⟩
    rw [show ((s.setStamp k none).setSweeper c none).stamp l = _
      from s.stamp_setStamp k l none] at hm
    split_ifs at hm
    exact hle m hm
  doomed b l r h := by
    rw [(s.setStamp k none).sweepers_setSweeper] at h
    split_ifs at h with hbc
    refine absurd (hg.alone b c ?_ ?_) hbc
    · rw [show s.sweepers b = some (l, r) from h]
      exact Option.some_ne_none _
    · rw [hc]
      exact Option.some_ne_none _
  alone := (hg.spare c).alone
  kept l put h := by
    obtain ⟨hclock, hkept⟩ := hg.kept l put h
    obtain ⟨hreading, m, hm, hold⟩ := hg.doomed c k reading hc
    refine ⟨hclock, ?_⟩
    rw [show ((s.setStamp k none).setSweeper c none).stamp l = _ from s.stamp_setStamp k l none]
    split_ifs with hl
    · refine .inr ?_
      rcases hkept with ⟨n, hn, hput⟩ | hgone
      · obtain rfl : m = n := Option.some.inj (hm.symm.trans (hl ▸ hn))
        show put + age ≤ s.clock + limit
        omega
      · exact hgone
    · exact hkept

end Aging
