import Mathlib.Data.List.Basic

/-!
# Paths and file-system errors

A path is the list of its components, which is how two paths are compared. A leading separator is
the component `/`; empty components and `.` are dropped, `..` is kept.
-/

namespace Jetrun

abbrev Path := List String

namespace Path

/-- The text cut at every separator. -/
def split : List Char → List (List Char)
  | [] => [[]]
  | c :: cs =>
    if c = '/' then [] :: split cs
    else match split cs with
      | [] => [[c]]
      | part :: parts => (c :: part) :: parts

def components (s : String) : Path :=
  (if s.toList.head? = some '/' then ["/"] else [])
    ++ ((split s.toList).map String.ofList).filter fun c => c ≠ "" ∧ c ≠ "."

/-- `p.join(s)`: an absolute `s` replaces `p`. -/
def push (p : Path) (s : String) : Path :=
  if s.toList.head? = some '/' then components s else p ++ components s

/-- The last component, where it names a file. -/
def fileName (p : Path) : Option String := p.getLast?.filter fun c => c ≠ ".." ∧ c ≠ "/"

end Path

/-- What the operating system answers to a call that fails. -/
inductive IoError
  | notFound
  | permissionDenied
  | alreadyExists
  | other (code : ℕ)
deriving DecidableEq

end Jetrun
