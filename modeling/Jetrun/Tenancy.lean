import Jetrun.Grants

/-!
# Which rows a decision may depend on

An organization owns rows in most tables, and the built-in roles belong to all of them. A decision
about one of its principals should depend on its own rows and the shared ones, and a grant should
count for the kind of principal it was made to. What the server did with its authorizer before is
part of the question, as every check fills the decision cache.
-/

namespace Jetrun

section Asking

/-- A call of the authorizer while the database does not change. -/
inductive Ask
  | authorize (l : Lookup) (permission : Permission)
  | effectivePermissions (l : Lookup)
  | invalidate

namespace DecisionCache

def asked (t : Tables) (c : DecisionCache) : Ask → DecisionCache
  | .authorize l permission =>
    (c.authorize ⟨.ok t, .ok t, l.now, l.later⟩ l.principal permission l.scope).2
  | .effectivePermissions l =>
    (c.effectivePermissions ⟨.ok t, .ok t, l.now, l.later⟩ l.principal l.scope).2
  | .invalidate => c.invalidate

/-- The cache after the calls `asks`, made on the tables `t` by a server that had just started. -/
def after (t : Tables) (asks : List Ask) : DecisionCache := asks.foldl (asked t) empty

end DecisionCache

/-- Whatever was asked before, by anyone, both entry points answer the principal the same on both
tables. -/
def Tables.AnswersAs (t t' : Tables) (principal : Principal) : Prop :=
  ∀ (asks : List Ask) (now later : ℕ) (scope : Scope),
    (∀ permission,
      ((DecisionCache.after t asks).authorize ⟨.ok t, .ok t, now, later⟩ principal permission
          scope).1
        = ((DecisionCache.after t' asks).authorize ⟨.ok t', .ok t', now, later⟩ principal permission
          scope).1) ∧
      ((DecisionCache.after t asks).effectivePermissions ⟨.ok t, .ok t, now, later⟩ principal
          scope).1
        = ((DecisionCache.after t' asks).effectivePermissions ⟨.ok t', .ok t', now, later⟩ principal
          scope).1

end Asking

namespace Tables

variable (t : Tables)

section Reaching

/-- The query takes the grant to be one of the principal's, at the scope or above it. -/
def Reaches (grant : RoleAssignmentRow) (principal : Principal) (scope : Scope) : Prop :=
  ∃ id, principal.idString = some id ∧ grant.orgId = principal.org.toCanonical ∧
    ((grant.principalKind = .user ∨ grant.principalKind = .serviceAccount) ∧
        grant.principalId = id ∨
      grant.principalKind = .team ∧ grant.principalId ∈ t.teamsOf principal.org.toCanonical id) ∧
    scope.coveredBy grant.scopeKind grant.scopeId = true

def Bestows (grant : RoleAssignmentRow) (permission : Permission) : Prop :=
  ∃ rp ∈ t.rolePermissions, rp.roleId = grant.roleId ∧ rp.permissionKey = permission.asStr

def adding (assignments : List RoleAssignmentRow) (permissions : List RolePermissionRow)
    (members : List TeamMemberRow) : Tables :=
  { t with
    roleAssignments := t.roleAssignments ++ assignments
    rolePermissions := t.rolePermissions ++ permissions
    teamMembers := t.teamMembers ++ members }

end Reaching

section Owning

/-- The role is one that the organization defined, or a built-in one. -/
def OwnRole (org roleId : String) : Prop :=
  ∃ r ∈ t.roles, r.id = roleId ∧ (r.orgId = none ∨ r.orgId = some org)

def OwnTeam (org teamId : String) : Prop :=
  ∃ team ∈ t.teams, team.id = teamId ∧ team.orgId = org

/-- The tables differ at most in rows that other organizations own. -/
structure AgreeOn (t' : Tables) (org : String) : Prop where
  users : ∀ u, u ∈ t.users ↔ u ∈ t'.users
  permissions : ∀ p, p ∈ t.permissions ↔ p ∈ t'.permissions
  memberships : ∀ m, m.orgId = org → (m ∈ t.memberships ↔ m ∈ t'.memberships)
  teams : ∀ team, team.orgId = org → (team ∈ t.teams ↔ team ∈ t'.teams)
  teamMembers : ∀ m, t.OwnTeam org m.teamId → (m ∈ t.teamMembers ↔ m ∈ t'.teamMembers)
  roles : ∀ r, r.orgId = none ∨ r.orgId = some org → (r ∈ t.roles ↔ r ∈ t'.roles)
  rolePermissions : ∀ rp, t.OwnRole org rp.roleId →
    (rp ∈ t.rolePermissions ↔ rp ∈ t'.rolePermissions)
  serviceAccounts : ∀ s, s.orgId = org → (s ∈ t.serviceAccounts ↔ s ∈ t'.serviceAccounts)
  roleAssignments : ∀ a, a.orgId = org → (a ∈ t.roleAssignments ↔ a ∈ t'.roleAssignments)

/-- No grant of a principal in good standing is to another organization's role, unless the other
grants already confer every permission of the catalog. -/
def Confined (org : OrgId) : Prop :=
  ∀ principal scope, principal.org = org → scope.orgId = org → t.GoodStanding principal →
    ∀ grant ∈ t.roleAssignments, t.Reaches grant principal scope →
      t.OwnRole org.toCanonical grant.roleId ∨
        ∀ permission : Permission, permission.asStr ∈ t.permissions →
          ∃ own ∈ t.roleAssignments, t.Reaches own principal scope ∧
            t.OwnRole org.toCanonical own.roleId ∧ t.Bestows own permission

end Owning

section Kinds

/-- The tables without the grants to principals of the kind. -/
def without (kind : PrincipalKind) : Tables :=
  { t with roleAssignments := t.roleAssignments.filter (·.principalKind ≠ kind) }

/-- No grant to the other kind carries the identifier of a principal in good standing, in its
organization, unless the remaining grants confer what the grant's role has. -/
def KindsTold (principal : Principal) (kind : PrincipalKind) : Prop :=
  t.GoodStanding principal → ∀ grant ∈ t.roleAssignments, grant.principalKind = kind →
    grant.orgId = principal.org.toCanonical → principal.idString = some grant.principalId →
    ∀ scope : Scope, scope.orgId = principal.org →
      scope.coveredBy grant.scopeKind grant.scopeId = true → ∀ permission,
        t.Bestows grant permission → ∃ other ∈ t.roleAssignments, other.principalKind ≠ kind ∧
          t.Reaches other principal scope ∧ t.Bestows other permission

end Kinds

end Tables

/-- The kind of principal that a grant must not have been made to if it is to count for this one. -/
def Principal.Mistaken (kind : PrincipalKind) : Principal → Prop
  | .user _ _ => kind = .serviceAccount
  | .serviceAccount _ _ => kind = .user
  | .system _ => False

end Jetrun
