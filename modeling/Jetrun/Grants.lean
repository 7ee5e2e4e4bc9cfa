import Jetrun.Authorizer

/-!
# What a grant confers

The purpose of the authorizer, said without queries or a cache. A grant gives a role to a principal
at a scope; it confers the permissions of the role on the principal, at that scope and at every
scope below. There are no denials, and a principal that is not in good standing is conferred
nothing.
-/

namespace Jetrun

namespace Tables

variable (t : Tables)

/-- A member whose membership and account are both active, or an account that is not disabled. -/
def GoodStanding : Principal → Prop
  | .user org user =>
    (∃ m ∈ t.memberships, m.orgId = org.toCanonical ∧ m.userId = user.toCanonical ∧
      m.status = .active) ∧
      ∃ u ∈ t.users, u.id = user.toCanonical ∧ u.status = .active
  | .serviceAccount org sa =>
    ∃ s ∈ t.serviceAccounts, s.id = sa.toCanonical ∧ s.orgId = org.toCanonical ∧
      s.disabledAt = none
  | .system _ => True

/-- The principal a grant names is the principal itself or, for a user, a team of the organization
that the user belongs to. -/
def Names (grant : RoleAssignmentRow) : Principal → Prop
  | .user org user =>
    grant.principalKind = .user ∧ grant.principalId = user.toCanonical ∨
      grant.principalKind = .team ∧
        ∃ team ∈ t.teams, team.id = grant.principalId ∧ team.orgId = org.toCanonical ∧
          ∃ m ∈ t.teamMembers, m.teamId = team.id ∧ m.userId = user.toCanonical
  | .serviceAccount _ sa =>
    grant.principalKind = .serviceAccount ∧ grant.principalId = sa.toCanonical
  | .system _ => False

def Confers (principal : Principal) (permission : Permission) (scope : Scope) : Prop :=
  ∃ grant ∈ t.roleAssignments, grant.orgId = principal.org.toCanonical ∧
    t.Names grant principal ∧
    (∃ rp ∈ t.rolePermissions, rp.roleId = grant.roleId ∧
      rp.permissionKey = permission.asStr) ∧
    scope.coveredBy grant.scopeKind grant.scopeId = true

def Admits (principal : Principal) (permission : Permission) (scope : Scope) : Prop :=
  principal.isSystem = true ∨
    scope.orgId = principal.org ∧ t.GoodStanding principal ∧ t.Confers principal permission scope

/-- Every grant to a user or to a service account names one, and nothing is both. -/
structure KindsApart : Prop where
  disjoint : ∀ u ∈ t.users, ∀ s ∈ t.serviceAccounts, u.id ≠ s.id
  user : ∀ grant ∈ t.roleAssignments, grant.principalKind = .user →
    ∃ u ∈ t.users, u.id = grant.principalId
  serviceAccount : ∀ grant ∈ t.roleAssignments, grant.principalKind = .serviceAccount →
    ∃ s ∈ t.serviceAccounts, s.id = grant.principalId

end Tables

end Jetrun
