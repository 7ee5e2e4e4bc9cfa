import Mathlib.Algebra.Group.Nat.Defs
import Mathlib.Data.Finset.Basic
import Mathlib.Data.Finset.Image
import Mathlib.Data.List.ProdSigma
import Mathlib.Logic.Function.Basic
import Jetrun.Schema

/-!
# The authorizer

Every permission check of the server goes through `authorize`. It looks at the principal's standing
first and then at the grants, which a decision cache in front of the database remembers for a while.
A query finds the tables as they are when it runs, or fails.
-/

namespace Jetrun

inductive StoreError
  | sqlx (e : String)
  | migrate (e : String)
  | fs (e : String)
  | notFound (entity id : String)
  | conflict (message : String)
  | invalid (message : String)
deriving DecidableEq

/-- Why a request was refused. -/
inductive Denied
  | missingPermission (permission : Permission) (scopeKind : String)
  | notAMember
  | wrongOrg
deriving DecidableEq

inductive AuthzError
  | denied (d : Denied)
  | store (e : StoreError)
deriving DecidableEq

section Queries

namespace Tables

variable (t : Tables)

/-- The teams of `org` that `user` belongs to. -/
def teamsOf (org user : String) : List String :=
  (t.teamMembers.product t.teams).filterMap fun (tm, team) =>
    if team.id = tm.teamId ∧ tm.userId = user ∧ team.orgId = org then some tm.teamId else none

def queryPermissions (principal : Principal) (scope : Scope) : Finset Permission :=
  match principal.idString with
  | none => ∅
  | some principalId =>
    let org := principal.org.toCanonical
    let rows := (t.roleAssignments.product t.rolePermissions).filterMap fun (ra, rp) =>
      if rp.roleId = ra.roleId ∧ ra.orgId = org ∧
          (((ra.principalKind = .user ∨ ra.principalKind = .serviceAccount) ∧
              ra.principalId = principalId) ∨
            (ra.principalKind = .team ∧ ra.principalId ∈ t.teamsOf org principalId)) ∧
          ∃ level ∈ scope.lineage, ra.scopeKind = level.1 ∧ ra.scopeId = level.2 then
        some rp.permissionKey
      else none
    (rows.dedup.filterMap Permission.fromStr).toFinset

/-- Whether the principal is entitled to act at all. -/
def isActivePrincipal : Principal → Bool
  | .system _ => true
  | .user org user =>
    let n := ((t.memberships.product t.users).filter fun (m, u) =>
      u.id = m.userId ∧ m.orgId = org.toCanonical ∧ m.userId = user.toCanonical ∧
        m.status = .active ∧ u.status = .active).length
    n > 0
  | .serviceAccount org sa =>
    let n := (t.serviceAccounts.filter fun s =>
      s.orgId = org.toCanonical ∧ s.id = sa.toCanonical ∧ s.disabledAt = none).length
    n > 0

end Tables

end Queries

section Cache

/-- Thirty seconds, in nanoseconds. -/
def cacheTtl : ℕ := 30 * 10 ^ 9

structure CacheEntry where
  permissions : Finset Permission
  generation : ℕ
  filledAt : ℕ

abbrev CacheKey := String × String × String × String

/-- The remembered decisions. The generation counter has 64 bits. -/
structure DecisionCache where
  generation : ℕ
  entries : CacheKey → Option CacheEntry

namespace DecisionCache

def empty : DecisionCache := ⟨0, fun _ => none⟩

def key (principal : Principal) (scope : Scope) : Option CacheKey :=
  principal.idString.map fun id =>
    (principal.org.toCanonical, id, scope.kind.asStr, scope.ownId)

variable (c : DecisionCache)

/-- What a lookup that loaded `genNow` finds under `key`. -/
def hit (key : CacheKey) (genNow now : ℕ) : Option (Finset Permission) :=
  match c.entries key with
  | none => none
  | some e => if e.generation = genNow ∧ now - e.filledAt < cacheTtl then some e.permissions else none

def fill (key : CacheKey) (entry : CacheEntry) : DecisionCache :=
  { c with entries := Function.update c.entries key (some entry) }

def bump : DecisionCache := { c with generation := (c.generation + 1) % 2 ^ 64 }

def clear : DecisionCache := { c with entries := fun _ => none }

def invalidate : DecisionCache := c.bump.clear

/-- A lookup with nothing else going on: it reads the cache at `now`, queries the tables it finds
and fills the cache at `later`. -/
def permissions (found : Except StoreError Tables) (now later : ℕ) (principal : Principal)
    (scope : Scope) : Except AuthzError (Finset Permission) × DecisionCache :=
  match key principal scope with
  | none => (.ok ∅, c)
  | some key =>
    let genNow := c.generation
    match c.hit key genNow now with
    | some held => (.ok held, c)
    | none =>
      match found with
      | .error e => (.error (.store e), c)
      | .ok t =>
        let perms := t.queryPermissions principal scope
        (.ok perms, c.fill key ⟨perms, genNow, later⟩)

end DecisionCache

/-- A lookup of the cache, with the two readings of the clock it makes. -/
structure Lookup where
  principal : Principal
  scope : Scope
  now : ℕ
  later : ℕ

/-- What lookups made one after another are answered while the database does not change. -/
def DecisionCache.answers (found : Except StoreError Tables) :
    DecisionCache → List Lookup → List (Except AuthzError (Finset Permission))
  | _, [] => []
  | c, l :: ls =>
    let (answer, c) := c.permissions found l.now l.later l.principal l.scope
    answer :: c.answers found ls

end Cache

section Decisions

def scopeName : ScopeKind → String
  | .org => "organization"
  | .project => "project"
  | .pipeline => "pipeline"

/-- What one check meets: the tables its two queries find, and its two readings of the clock. -/
structure Check where
  standing : Except StoreError Tables
  grants : Except StoreError Tables
  now : ℕ
  later : ℕ

namespace DecisionCache

variable (c : DecisionCache) (check : Check)

def authorize (principal : Principal) (permission : Permission) (scope : Scope) :
    Except AuthzError Unit × DecisionCache :=
  if principal.isSystem then (.ok (), c)
  else if scope.orgId ≠ principal.org then (.error (.denied .wrongOrg), c)
  else
    match check.standing with
    | .error e => (.error (.store e), c)
    | .ok t =>
      if t.isActivePrincipal principal = false then (.error (.denied .notAMember), c)
      else
        match c.permissions check.grants check.now check.later principal scope with
        | (.error e, c) => (.error e, c)
        | (.ok held, c) =>
          if permission ∈ held then (.ok (), c)
          else (.error (.denied (.missingPermission permission (scopeName scope.kind))), c)

/-- Every permission the principal holds at the scope. -/
def effectivePermissions (principal : Principal) (scope : Scope) :
    Except AuthzError (Finset Permission) × DecisionCache :=
  if principal.isSystem then (.ok Permission.all.toFinset, c)
  else if scope.orgId ≠ principal.org then (.ok ∅, c)
  else
    match check.standing with
    | .error e => (.error (.store e), c)
    | .ok t =>
      if t.isActivePrincipal principal = false then (.ok ∅, c)
      else c.permissions check.grants check.now check.later principal scope

end DecisionCache

end Decisions

end Jetrun
