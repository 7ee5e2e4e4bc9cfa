import Mathlib.Data.List.Basic

/-!
# Identifiers

An identifier is a ULID, and every row and every comparison uses its canonical text: twenty-six
digits of Crockford's base 32, of which the first is at most seven. The identifiers of different
entities have different types, so that one cannot stand where another belongs.
-/

namespace Jetrun

def crockford : List Char := "0123456789ABCDEFGHJKMNPQRSTVWXYZ".toList

structure Ulid where
  text : String
  size : text.utf8ByteSize = 26
  digits : ∀ c ∈ text.toList, c ∈ crockford
  first : ∀ c, text.toList.head? = some c → c ≤ '7'
deriving DecidableEq

namespace Ulid

theorem ext_text : ∀ {u v : Ulid}, u.text = v.text → u = v
  | ⟨_, _, _, _⟩, ⟨_, _, _, _⟩, rfl => rfl

def ofText (text : String) (size : text.utf8ByteSize = 26)
    (digits : text.toList.all crockford.contains = true)
    (first : text.toList.head?.all (· ≤ '7') = true) : Ulid where
  text
  size
  digits c hc := by
    have h := List.all_eq_true.1 digits c hc
    simpa using h
  first c hc := by
    rw [hc] at first
    simpa using first

end Ulid

inductive Entity
  | org
  | user
  | team
  | project
  | pipeline
  | serviceAccount
deriving DecidableEq

/-- The identifier of an entity of one kind. -/
structure Id (entity : Entity) where
  ulid : Ulid
deriving DecidableEq

namespace Id

variable {entity : Entity}

def toCanonical (i : Id entity) : String := i.ulid.text

theorem toCanonical_inj {i j : Id entity} (h : i.toCanonical = j.toCanonical) : i = j := by
  cases i
  cases j
  exact congrArg Id.mk (Ulid.ext_text h)

end Id

abbrev OrgId := Id .org
abbrev UserId := Id .user
abbrev TeamId := Id .team
abbrev ProjectId := Id .project
abbrev PipelineId := Id .pipeline
abbrev ServiceAccountId := Id .serviceAccount

end Jetrun
