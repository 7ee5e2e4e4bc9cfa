import Jetrun.Http

/-!
# The delivery guard as a window

What the guard is asked, and what it answered, in order. From this alone, without a table, it can be
told what it is to answer next.
-/

namespace Jetrun

namespace DeliveryGuard

/-- A call of `check`, and what the clock reads when it is made. -/
structure Call where
  id : Option String
  now : ℕ

/-- The guard, and the calls so far with their answers. -/
structure Asked where
  guard : DeliveryGuard
  log : List (Call × Delivery)

def ask (s : Asked) (c : Call) : Option Asked :=
  let (answer, guard) := s.guard.check c.id c.now
  some ⟨guard, s.log ++ [(c, answer)]⟩

/-- The id that is let through, and when. -/
def letThrough (e : Call × Delivery) : Option (String × ℕ) :=
  if e.2 = .fresh then e.1.id.map fun id => (id, e.1.now) else none

/-- What the clock reads, if it is read: without an id to look for, it is not. -/
def reading (e : Call × Delivery) : Option ℕ :=
  if e.2 = .unidentified then none else some e.1.now

def readings (log : List (Call × Delivery)) : List ℕ := log.filterMap reading

/-- The ids let through, each counted once. -/
def freshIds (log : List (Call × Delivery)) : Finset String :=
  ((log.filterMap letThrough).map (·.1)).toFinset

/-- The latest call that let the id through was less than `ttl` ago, and fewer than `capacity` other
ids were let through since. -/
def InWindow (ttl capacity : ℕ) (before : List (Call × Delivery)) (now : ℕ) (id : String) : Prop :=
  ∃ earlier t since, before = earlier ++ (⟨some id, t⟩, .fresh) :: since ∧
    (∀ e ∈ since, ¬(e.1.id = some id ∧ e.2 = .fresh)) ∧ now - t < ttl ∧
    (freshIds since).card < capacity

/-- The answer to a call, from the calls before it. -/
def Exact (ttl capacity : ℕ) (before : List (Call × Delivery)) (e : Call × Delivery) : Prop :=
  (∀ id, e.1.id = some id → identifies id → InWindow ttl capacity before e.1.now id →
    e.2 = .duplicate) ∧
  (∀ id, e.1.id = some id → identifies id → ¬InWindow ttl capacity before e.1.now id →
    e.2 = .fresh) ∧
  ((∀ id, e.1.id = some id → ¬identifies id) → e.2 = .unidentified)

end DeliveryGuard

end Jetrun
