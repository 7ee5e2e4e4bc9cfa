import Jetrun.Authorizer
import Jetrun.Lib.Traced

/-!
# Seeding the built-in roles

At every start the server reconciles the built-in roles with what the code says about them, in one
transaction. Any call of the database may fail; what was done in a transaction that is not committed
is dropped with it.
-/

namespace Jetrun

/-- The tables as they are and as the open transaction sees them, and what becomes of the calls to
come: `some e` for one that fails. -/
structure Database where
  committed : Tables
  transaction : Tables
  faults : List (Option StoreError)

namespace Database

abbrev Session := Traced Database StoreError Empty

def attempt {α : Type} (f : Database → Except StoreError α × Database) :
    StateM Database (Except StoreError α) := fun w =>
  match w.faults with
  | some e :: faults => (.error e, { w with faults })
  | none :: faults => f { w with faults }
  | [] => f w

def call {α : Type} (f : Database → Except StoreError α × Database) : Session α :=
  Traced.act (attempt f) >>= Traced.ofExcept

/-- A query outside of a transaction. -/
def read {α : Type} (query : Tables → α) : Session α := call fun w => (.ok (query w.committed), w)

def begin : Session Unit := call fun w => (.ok (), { w with transaction := w.committed })

def fetchOne {α : Type} (query : Tables → Option α) : Session α := call fun w =>
  match query w.transaction with
  | some a => (.ok a, w)
  | none =>
    (.error (.sqlx "no rows returned by a query that expected to return at least one row"), w)

def execute (statement : Tables → Except StoreError Tables) : Session Unit := call fun w =>
  match statement w.transaction with
  | .ok t => (.ok (), { w with transaction := t })
  | .error e => (.error e, w)

def commit : Session Unit := call fun w => (.ok (), { w with committed := w.transaction })

end Database

section Statements

namespace Tables

variable (t : Tables)

/-- `INSERT OR IGNORE`: a row that a unique index refuses is left out. -/
def insertOrIgnoreRole (row : RoleRow) : Except StoreError Tables :=
  if row.id ∈ t.roles.map (·.id) ∨
      (row.orgId, row.key) ∈ t.roles.map fun r => (r.orgId, r.key) then
    .ok t
  else .ok { t with roles := t.roles ++ [row] }

def systemRoleId (key : String) : Option String :=
  (t.roles.find? fun r => r.orgId = none ∧ r.key = key).map (·.id)

def deleteRolePermissions (roleId : String) : Except StoreError Tables :=
  .ok { t with rolePermissions := t.rolePermissions.filter (·.roleId ≠ roleId) }

def insertRolePermission (row : RolePermissionRow) : Except StoreError Tables :=
  if row ∈ t.rolePermissions then
    .error (.sqlx
      "UNIQUE constraint failed: role_permissions.role_id, role_permissions.permission_key")
  else if row.roleId ∈ t.roles.map (·.id) ∧ row.permissionKey ∈ t.permissions then
    .ok { t with rolePermissions := t.rolePermissions ++ [row] }
  else .error (.sqlx "FOREIGN KEY constraint failed")

end Tables

end Statements

section Seeding

open Database

/-- A list of texts, as Rust prints it for debugging. -/
def debugList (texts : List String) : String :=
  "[" ++ ", ".intercalate (texts.map fun s => "\"" ++ s ++ "\"") ++ "]"

def missingFrom (catalog : List String) : List String :=
  (Permission.all.map (·.asStr)).filter (· ∉ catalog)

def verifyPermissionCatalog : Session Unit := do
  let rows ← read (·.permissions)
  let missing := missingFrom rows
  if missing ≠ [] then
    Traced.fail (.invalid
      ("permission catalog is missing " ++ debugList missing ++
        "; a migration is needed to add them"))

def newRole (now : Int) (fresh : SystemRole → Ulid) (role : SystemRole) : RoleRow where
  id := (fresh role).text
  orgId := none
  key := role.key
  name := role.displayName
  description := role.description
  isSystem := true
  createdAt := now

/-- One turn of the loop. `fresh` is the identifier generated in the turn of each role. -/
def reconcile (now : Int) (fresh : SystemRole → Ulid) (role : SystemRole) : Session Unit := do
  execute (·.insertOrIgnoreRole (newRole now fresh role))
  let roleId ← fetchOne (·.systemRoleId role.key)
  execute (·.deleteRolePermissions roleId)
  role.permissions.forM fun perm => execute (·.insertRolePermission ⟨roleId, perm.asStr⟩)

def bootstrap (now : Int) (fresh : SystemRole → Ulid) : Session Unit := do
  verifyPermissionCatalog
  begin
  SystemRole.all.forM (reconcile now fresh)
  commit

end Seeding

section Purpose

def RoleRow.IsBuiltIn (row : RoleRow) (role : SystemRole) : Prop :=
  row.orgId = none ∧ row.key = role.key

instance (row : RoleRow) (role : SystemRole) : Decidable (row.IsBuiltIn role) :=
  inferInstanceAs (Decidable (_ ∧ _))

/-- The role is as the code says: it has one row, which is the one it had or a new one, with the
permissions of the code and no others. -/
def Tables.Reconciled (now : Int) (fresh : SystemRole → Ulid) (t t' : Tables) (role : SystemRole) :
    Prop :=
  ∃ row, t'.roles.filter (·.IsBuiltIn role) = [row] ∧
    (t.roles.filter (·.IsBuiltIn role) = [row] ∨
      t.roles.filter (·.IsBuiltIn role) = [] ∧ row = newRole now fresh role) ∧
    ∀ key, ⟨row.id, key⟩ ∈ t'.rolePermissions ↔ ∃ p ∈ role.permissions, p.asStr = key

/-- Nothing but the built-in roles and their permissions differs. -/
structure Tables.OthersKept (t t' : Tables) : Prop where
  roles : ∀ row, (∀ role, ¬row.IsBuiltIn role) → (row ∈ t'.roles ↔ row ∈ t.roles)
  permissions : ∀ rp, (∀ row ∈ t'.roles, row.id = rp.roleId → ∀ role, ¬row.IsBuiltIn role) →
    (rp ∈ t'.rolePermissions ↔ rp ∈ t.rolePermissions)
  rest : { t' with roles := t.roles, rolePermissions := t.rolePermissions } = t

/-- The same rows, in whatever order. -/
structure Tables.SameRows (t t' : Tables) : Prop where
  roles : t.roles.Perm t'.roles
  permissions : t.rolePermissions.Perm t'.rolePermissions
  rest : { t' with roles := t.roles, rolePermissions := t.rolePermissions } = t

end Purpose

end Jetrun
