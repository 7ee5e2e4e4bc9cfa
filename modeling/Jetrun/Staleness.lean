import Jetrun.Revocation

/-!
# How old an answer may be

Nobody invalidates: entries only go out of use with age. An entry's age is counted from when it was
put in, and what it holds was read before.
-/

namespace Jetrun

namespace Shared

variable (s : Shared)

/-- The query yields `perms` on a version that was not replaced before `t`. -/
def CurrentAt (t : ℕ) (principal : Principal) (scope : Scope) (perms : Finset Permission) : Prop :=
  ∃ v version, s.history[v]? = some version ∧
    perms = version.tables.queryPermissions principal scope ∧
    ∀ next, s.history[v + 1]? = some next → t ≤ next.since

/-- The query yields `perms` on a version that, if it was replaced before the lookup began, was
replaced less than `cacheTtl` before. -/
def WithinTtl (call : LookupCall) (perms : Finset Permission) : Prop :=
  ∃ v version, s.history[v]? = some version ∧
    perms = version.tables.queryPermissions call.principal call.scope ∧
    ∀ next, s.history[v + 1]? = some next → call.began < next.since + cacheTtl

end Shared

end Jetrun
