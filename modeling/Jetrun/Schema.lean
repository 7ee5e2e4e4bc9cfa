import Mathlib.Data.List.Nodup
import Jetrun.Authz

/-!
# The tables authorization reads

One row type for each table, with the columns that a query, a statement of the seeding or a
constraint on them uses. A column the schema restricts to a few words is an enumeration, and an
identifier is the text that the column holds.
-/

namespace Jetrun

inductive UserStatus
  | active
  | suspended
  | deleted
deriving DecidableEq

structure UserRow where
  id : String
  status : UserStatus
deriving DecidableEq

inductive MembershipStatus
  | active
  | suspended
deriving DecidableEq

structure MembershipRow where
  orgId : String
  userId : String
  status : MembershipStatus
deriving DecidableEq

structure TeamRow where
  id : String
  orgId : String
deriving DecidableEq

structure TeamMemberRow where
  teamId : String
  userId : String
deriving DecidableEq

/-- A role without an organization is built in and shared by all of them. -/
structure RoleRow where
  id : String
  orgId : Option String
  key : String
  name : String
  description : String
  isSystem : Bool
  createdAt : Int
deriving DecidableEq

structure RolePermissionRow where
  roleId : String
  permissionKey : String
deriving DecidableEq

structure ServiceAccountRow where
  id : String
  orgId : String
  disabledAt : Option Int
deriving DecidableEq

structure RoleAssignmentRow where
  id : String
  orgId : String
  principalKind : PrincipalKind
  principalId : String
  roleId : String
  scopeKind : ScopeKind
  scopeId : String
deriving DecidableEq

structure Tables where
  organizations : List String
  users : List UserRow
  memberships : List MembershipRow
  teams : List TeamRow
  teamMembers : List TeamMemberRow
  permissions : List String
  roles : List RoleRow
  rolePermissions : List RolePermissionRow
  serviceAccounts : List ServiceAccountRow
  roleAssignments : List RoleAssignmentRow
deriving DecidableEq

/-- Tables that satisfy the schema: its primary keys, its unique indexes and its foreign keys. -/
structure Db extends Tables where
  users_key : (users.map (·.id)).Nodup
  organizations_key : organizations.Nodup
  memberships_key : (memberships.map fun m => (m.orgId, m.userId)).Nodup
  memberships_org : ∀ m ∈ memberships, m.orgId ∈ organizations
  memberships_user : ∀ m ∈ memberships, m.userId ∈ users.map (·.id)
  teams_key : (teams.map (·.id)).Nodup
  teams_org : ∀ t ∈ teams, t.orgId ∈ organizations
  teamMembers_key : (teamMembers.map fun m => (m.teamId, m.userId)).Nodup
  teamMembers_team : ∀ m ∈ teamMembers, m.teamId ∈ teams.map (·.id)
  teamMembers_user : ∀ m ∈ teamMembers, m.userId ∈ users.map (·.id)
  permissions_key : permissions.Nodup
  roles_key : (roles.map (·.id)).Nodup
  roles_name : (roles.map fun r => (r.orgId, r.key)).Nodup
  roles_check : ∀ r ∈ roles, r.isSystem = true ↔ r.orgId = none
  roles_org : ∀ r ∈ roles, ∀ org ∈ r.orgId, org ∈ organizations
  rolePermissions_key : (rolePermissions.map fun r => (r.roleId, r.permissionKey)).Nodup
  rolePermissions_role : ∀ r ∈ rolePermissions, r.roleId ∈ roles.map (·.id)
  rolePermissions_permission : ∀ r ∈ rolePermissions, r.permissionKey ∈ permissions
  serviceAccounts_key : (serviceAccounts.map (·.id)).Nodup
  serviceAccounts_org : ∀ s ∈ serviceAccounts, s.orgId ∈ organizations
  roleAssignments_key : (roleAssignments.map (·.id)).Nodup
  roleAssignments_once : (roleAssignments.map fun a =>
    (a.principalKind, a.principalId, a.roleId, a.scopeKind, a.scopeId)).Nodup
  roleAssignments_org : ∀ a ∈ roleAssignments, a.orgId ∈ organizations
  roleAssignments_role : ∀ a ∈ roleAssignments, a.roleId ∈ roles.map (·.id)

namespace Db

variable (db : Db)

/-- The same database with other permissions of its roles. -/
def withRolePermissions (rows : List RolePermissionRow)
    (hkey : (rows.map fun r => (r.roleId, r.permissionKey)).Nodup)
    (hrole : ∀ r ∈ rows, r.roleId ∈ db.roles.map (·.id))
    (hpermission : ∀ r ∈ rows, r.permissionKey ∈ db.permissions) : Db :=
  { db with
    rolePermissions := rows
    rolePermissions_key := hkey
    rolePermissions_role := hrole
    rolePermissions_permission := hpermission }

/-- The same database with one more role. -/
def withRole (row : RoleRow) (hid : row.id ∉ db.roles.map (·.id))
    (hname : (row.orgId, row.key) ∉ db.roles.map fun r => (r.orgId, r.key))
    (hcheck : row.isSystem = true ↔ row.orgId = none)
    (horg : ∀ org ∈ row.orgId, org ∈ db.organizations) : Db :=
  { db with
    roles := db.roles ++ [row]
    roles_key := by
      rw [List.map_append]
      exact List.Nodup.append db.roles_key (List.nodup_singleton _) (List.disjoint_singleton.2 hid)
    roles_name := by
      rw [List.map_append]
      exact List.Nodup.append db.roles_name (List.nodup_singleton _)
        (List.disjoint_singleton.2 hname)
    roles_check := List.forall_mem_append.2 ⟨db.roles_check, List.forall_mem_singleton.2 hcheck⟩
    roles_org := List.forall_mem_append.2 ⟨db.roles_org, List.forall_mem_singleton.2 horg⟩
    rolePermissions_role := fun r hr => by
      rw [List.map_append]
      exact List.mem_append_left _ (db.rolePermissions_role r hr)
    roleAssignments_role := fun a ha => by
      rw [List.map_append]
      exact List.mem_append_left _ (db.roleAssignments_role a ha) }

end Db

end Jetrun
