import Jetrun.Bootstrap
import Jetrun.Tenancy

/-!
# Built-in roles, once granted

The server seeds its built-in roles at every start, and a grant refers to one by its row. Five of
them are meant as a ladder on which one climbs without losing anything.
-/

namespace Jetrun

namespace SystemRole

/-- The roles that include one another, weakest first. -/
def ladder : List SystemRole := [viewer, developer, maintainer, admin, owner]

/-- Billing stands beside the ladder, and only owners may do what it may. -/
def Below (lower higher : SystemRole) : Prop :=
  lower = higher ∨ [lower, higher].Sublist ladder ∨ lower = billing ∧ higher = owner

instance (lower higher : SystemRole) : Decidable (lower.Below higher) :=
  inferInstanceAs (Decidable (_ ∨ _))

end SystemRole

namespace Tables

variable (t : Tables)

def OfRole (grant : RoleAssignmentRow) (role : SystemRole) : Prop :=
  ∃ row ∈ t.roles, row.id = grant.roleId ∧ row.IsBuiltIn role

/-- Every built-in role is there once, with the permissions that the code gives it. -/
def AsCoded : Prop :=
  ∀ role, ∃ row, t.roles.filter (·.IsBuiltIn role) = [row] ∧
    ∀ key, ⟨row.id, key⟩ ∈ t.rolePermissions ↔ ∃ p ∈ role.permissions, p.asStr = key

/-- What the grant is worth: the list in the code if it is of a built-in role, and the rows of its
role otherwise. -/
def Worth (grant : RoleAssignmentRow) (permission : Permission) : Prop :=
  (∃ role, t.OfRole grant role ∧ permission ∈ role.permissions) ∨
    (∀ role, ¬t.OfRole grant role) ∧ t.Bestows grant permission

/-- The grant is of another role now, to the same principal and at the same scope. -/
def regraded (grant : RoleAssignmentRow) (roleId : String) : Tables :=
  { t with
    roleAssignments := t.roleAssignments.map fun a => if a = grant then { a with roleId } else a }

/-- No other grant says anything about the principal at the scope. -/
def Only (grant : RoleAssignmentRow) (principal : Principal) (scope : Scope) : Prop :=
  t.Reaches grant principal scope ∧
    ∀ a ∈ t.roleAssignments, t.Reaches a principal scope → a = grant

end Tables

end Jetrun
