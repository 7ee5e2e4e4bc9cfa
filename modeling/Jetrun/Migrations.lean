import Jetrun.Lib.Referential
import Jetrun.Tenancy

/-!
# The schema

The tables that the migrations create: their primary keys, what their columns refer to and what
becomes of a row whose reference is deleted, and the table that triggers keep append-only. The rows
that the authorizer queries are read from it, so what a deletion does to the tables shows in what is
decided.
-/

namespace Jetrun

inductive Table
  | users
  | credentials
  | organizations
  | memberships
  | teams
  | teamMembers
  | permissions
  | roles
  | rolePermissions
  | serviceAccounts
  | apiTokens
  | roleAssignments
  | invitations
  | auditLog
  | projects
  | pipelines
  | runs
  | steps
  | secrets
  | workers
deriving DecidableEq

inductive SqlValue
  | text (s : String)
  | integer (n : Int)
  | blob (bytes : List UInt8)
deriving DecidableEq

abbrev SqlRow := Referential.Row Table String SqlValue

namespace Migrations

open Referential

def primaryKey : Table → List String
  | .memberships => ["org_id", "user_id"]
  | .teamMembers => ["team_id", "user_id"]
  | .permissions => ["key"]
  | .rolePermissions => ["role_id", "permission_key"]
  | _ => ["id"]

def foreignKeys : List (ForeignKey Table String) :=
  [⟨.credentials, "user_id", .users, .cascade⟩,
    ⟨.memberships, "org_id", .organizations, .cascade⟩,
    ⟨.memberships, "user_id", .users, .cascade⟩,
    ⟨.teams, "org_id", .organizations, .cascade⟩,
    ⟨.teamMembers, "team_id", .teams, .cascade⟩,
    ⟨.teamMembers, "user_id", .users, .cascade⟩,
    ⟨.roles, "org_id", .organizations, .cascade⟩,
    ⟨.rolePermissions, "role_id", .roles, .cascade⟩,
    ⟨.rolePermissions, "permission_key", .permissions, .restrict⟩,
    ⟨.serviceAccounts, "org_id", .organizations, .cascade⟩,
    ⟨.serviceAccounts, "created_by", .users, .setNull⟩,
    ⟨.apiTokens, "org_id", .organizations, .cascade⟩,
    ⟨.roleAssignments, "org_id", .organizations, .cascade⟩,
    ⟨.roleAssignments, "role_id", .roles, .cascade⟩,
    ⟨.roleAssignments, "granted_by", .users, .setNull⟩,
    ⟨.invitations, "org_id", .organizations, .cascade⟩,
    ⟨.invitations, "role_id", .roles, .cascade⟩,
    ⟨.invitations, "invited_by", .users, .setNull⟩,
    ⟨.invitations, "accepted_by", .users, .setNull⟩,
    ⟨.projects, "org_id", .organizations, .cascade⟩,
    ⟨.pipelines, "org_id", .organizations, .cascade⟩,
    ⟨.pipelines, "project_id", .projects, .cascade⟩,
    ⟨.runs, "org_id", .organizations, .cascade⟩,
    ⟨.runs, "pipeline_id", .pipelines, .cascade⟩,
    ⟨.steps, "org_id", .organizations, .cascade⟩,
    ⟨.steps, "run_id", .runs, .cascade⟩,
    ⟨.secrets, "org_id", .organizations, .cascade⟩,
    ⟨.secrets, "created_by", .users, .setNull⟩,
    ⟨.workers, "org_id", .organizations, .cascade⟩]

/-- `constraints` are the unique indexes, the checks and the columns that are not null. -/
def schema (constraints : List SqlRow → Bool) : Schema Table String SqlValue where
  primaryKey := primaryKey
  foreignKeys := foreignKeys
  appendOnly table := table = .auditLog
  constraints := constraints

end Migrations

section Reading

namespace SqlRow

variable (r : SqlRow)

def text (column : String) : Option String :=
  match r.value column with
  | some (.text s) => some s
  | _ => none

def integer (column : String) : Option Int :=
  match r.value column with
  | some (.integer n) => some n
  | _ => none

end SqlRow

def UserStatus.ofText (s : String) : Option UserStatus :=
  if s = "active" then some .active
  else if s = "suspended" then some .suspended
  else if s = "deleted" then some .deleted
  else none

def MembershipStatus.ofText (s : String) : Option MembershipStatus :=
  if s = "active" then some .active else if s = "suspended" then some .suspended else none

def PrincipalKind.ofText (s : String) : Option PrincipalKind :=
  if s = "user" then some .user
  else if s = "team" then some .team
  else if s = "service_account" then some .serviceAccount
  else none

def ScopeKind.ofText (s : String) : Option ScopeKind :=
  if s = "org" then some .org
  else if s = "project" then some .project
  else if s = "pipeline" then some .pipeline
  else none

namespace Tables

variable (r : SqlRow)

def userRow : Option UserRow := do
  pure ⟨← r.text "id", ← (r.text "status").bind UserStatus.ofText⟩

def membershipRow : Option MembershipRow := do
  pure ⟨← r.text "org_id", ← r.text "user_id", ← (r.text "status").bind MembershipStatus.ofText⟩

def teamRow : Option TeamRow := do
  pure ⟨← r.text "id", ← r.text "org_id"⟩

def teamMemberRow : Option TeamMemberRow := do
  pure ⟨← r.text "team_id", ← r.text "user_id"⟩

def roleRow : Option RoleRow := do
  pure ⟨← r.text "id", r.text "org_id", ← r.text "key", ← r.text "name", ← r.text "description",
    (← r.integer "is_system") = 1, ← r.integer "created_at"⟩

def rolePermissionRow : Option RolePermissionRow := do
  pure ⟨← r.text "role_id", ← r.text "permission_key"⟩

def serviceAccountRow : Option ServiceAccountRow := do
  pure ⟨← r.text "id", ← r.text "org_id", r.integer "disabled_at"⟩

def roleAssignmentRow : Option RoleAssignmentRow := do
  pure ⟨← r.text "id", ← r.text "org_id", ← (r.text "principal_kind").bind PrincipalKind.ofText,
    ← r.text "principal_id", ← r.text "role_id", ← (r.text "scope_kind").bind ScopeKind.ofText,
    ← r.text "scope_id"⟩

/-- What a query of one table finds. -/
def select {α : Type} (rows : List SqlRow) (table : Table) (read : SqlRow → Option α) : List α :=
  (rows.filter fun r => r.table = table).filterMap read

/-- The tables as the authorizer queries them. -/
def ofRows (rows : List SqlRow) : Tables where
  organizations := select rows .organizations fun r => r.text "id"
  users := select rows .users userRow
  memberships := select rows .memberships membershipRow
  teams := select rows .teams teamRow
  teamMembers := select rows .teamMembers teamMemberRow
  permissions := select rows .permissions fun r => r.text "key"
  roles := select rows .roles roleRow
  rolePermissions := select rows .rolePermissions rolePermissionRow
  serviceAccounts := select rows .serviceAccounts serviceAccountRow
  roleAssignments := select rows .roleAssignments roleAssignmentRow

end Tables

end Reading

namespace Migrations

open Referential

variable (constraints : List SqlRow → Bool) (rows : List SqlRow)

/-- `DELETE FROM table WHERE id = ?` -/
def deleteById (table : Table) (id : String) : Except Schema.Refusal (List SqlRow) :=
  (schema constraints).delete rows table fun r => r.value "id" = some (.text id)

/-- The table has a row whose `column` is that of the row, and which the organization owns. -/
def OwnedThrough (org : String) (r : SqlRow) (table : Table) (column : String) : Prop :=
  ∃ p ∈ rows, p.table = table ∧ p.value "org_id" = some (.text org) ∧
    ∃ v ∈ p.value "id", r.value column = some v

/-- Whose row it is: most have a column for it, some belong to whom their team or role belongs to.
The audit log only names organizations. -/
def Owns (org : String) (r : SqlRow) : Prop :=
  match r.table with
  | .users | .credentials | .permissions | .auditLog => False
  | .organizations => r.value "id" = some (.text org)
  | .teamMembers => OwnedThrough rows org r .teams "team_id"
  | .rolePermissions => OwnedThrough rows org r .roles "role_id"
  | _ => r.value "org_id" = some (.text org)

/-- No row that another organization owns, or none, is deleted with one of this organization. -/
def Coherent (org : String) : Prop :=
  ∀ r ∈ rows, ∀ p ∈ rows, (schema constraints).Refers r p .cascade → Owns rows org p →
    Owns rows org r

/-- What goes with a user. -/
def Personal (user : String) (r : SqlRow) : Prop :=
  r.table = .users ∧ r.value "id" = some (.text user) ∨
    (r.table = .credentials ∨ r.table = .memberships ∨ r.table = .teamMembers) ∧
      r.value "user_id" = some (.text user)

end Migrations

end Jetrun
