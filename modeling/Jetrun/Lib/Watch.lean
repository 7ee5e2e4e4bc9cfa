import Mathlib.Data.List.Basic

/-!
# A watched value

One sender sets a value, and any number of receivers learn that it was set, though not how often. A
receiver knows which version it saw last. It waits until there is another, which it then has seen,
or until there is none to come. Looking at the value is a step of its own, and finds what is there
by then.
-/

namespace Watch

structure Channel (α : Type) where
  value : α
  version : ℕ
  /-- The sender is still there. -/
  isOpen : Bool
deriving DecidableEq

namespace Channel

variable {α : Type}

def new (a : α) : Channel α := ⟨a, 0, true⟩

def send (c : Channel α) (a : α) : Channel α := { c with value := a, version := c.version + 1 }

def close (c : Channel α) : Channel α := { c with isOpen := false }

/-- What a receiver that saw `seen` finds: nothing yet, the version it sees now, or that there will
be none. -/
def changed (c : Channel α) (seen : ℕ) : Option (Except Unit ℕ) :=
  if seen ≠ c.version then some (.ok c.version)
  else if c.isOpen then none
  else some (.error ())

variable {c : Channel α} {seen v : ℕ}

theorem changed_eq_ok : c.changed seen = some (.ok v) ↔ seen ≠ c.version ∧ c.version = v := by
  unfold changed
  split_ifs with hseen hopen
  · simp [hseen]
  · simp [not_not.1 hseen]
  · simp [not_not.1 hseen]

theorem changed_eq_error :
    c.changed seen = some (.error ()) ↔ seen = c.version ∧ c.isOpen = false := by
  unfold changed
  split_ifs with hseen hopen
  · simp [hseen]
  · simp [hopen]
  · simp [not_not.1 hseen, hopen]

theorem changed_eq_none : c.changed seen = none ↔ seen = c.version ∧ c.isOpen = true := by
  unfold changed
  split_ifs with hseen hopen
  · simp [hseen]
  · simp [not_not.1 hseen, hopen]
  · simp [hopen]

end Channel

end Watch
