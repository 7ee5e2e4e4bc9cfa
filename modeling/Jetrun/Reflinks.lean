import Jetrun.Lib.Runs
import Jetrun.Link

/-!
# Many placements and one flag

All placements of a store share what is known of reflinks. Between two of them anything may happen
to the files.
-/

namespace Jetrun

namespace Link

structure Placement where
  src : Path
  dst : Path
  intent : Intent

inductive Event (ω : Type)
  | meanwhile (now : ω)
  | place (p : Placement)

variable {ω : Type} (os : Os ω)

namespace Placement

variable (p : Placement)

def run : StateM (Session ω) (Except IoError LinkMode) := materialize os p.src p.dst p.intent

section Answers

/-! What the operating system answers on the way to a clone, as long as nothing fails. -/

variable (t : ω)

def removeAnswer : Except IoError Unit × ω := os.removeFile p.dst t

def sourceAnswer : Except IoError Unit × ω := os.openRead p.src (p.removeAnswer os t).2

def destinationAnswer : Except IoError Unit × ω := os.createNew p.dst (p.sourceAnswer os t).2

def cloneAnswer : Except IoError Unit := (os.ficlone p.src p.dst (p.destinationAnswer os t).2).1

/-- Nothing is left at the destination. -/
def Clears : Prop :=
  (p.removeAnswer os t).1 = .ok () ∨ (p.removeAnswer os t).1 = .error .notFound

/-- Both files are open, and all that is left is to clone the one into the other. -/
def Reaches : Prop :=
  p.Clears os t ∧ (p.sourceAnswer os t).1 = .ok () ∧ (p.destinationAnswer os t).1 = .ok ()

end Answers

/-- One of the errors that a file system gives which will never clone. -/
def Unsupported (answer : Except IoError Unit) : Prop :=
  ∃ e, answer = .error e ∧ isUnsupported e

/-- On the way to a clone, one call is answered with such an error. -/
def Refused (t : ω) : Prop :=
  p.Clears os t ∧ (Unsupported (p.sourceAnswer os t).1 ∨
    (p.sourceAnswer os t).1 = .ok () ∧ (Unsupported (p.destinationAnswer os t).1 ∨
      (p.destinationAnswer os t).1 = .ok () ∧ Unsupported (p.cloneAnswer os t)))

variable (fs : Path → Prop)

def Within : Prop := fs p.src ∧ fs p.dst

def Crosses : Prop := ¬(fs p.src ↔ fs p.dst)

/-- Files of `fs` can be cloned within it, and not across its border. -/
structure Assumed (t : ω) : Prop where
  within : p.Within fs → p.Reaches os t → p.cloneAnswer os t = .ok ()
  across : p.Crosses fs → p.Reaches os t → p.cloneAnswer os t = .error exdev

end Placement

def step (s : Session ω) : Event ω → Option (Session ω)
  | .meanwhile now => some { s with os := now }
  | .place p => some (p.run os s).2

/-- The event is no placement that is refused a clone. -/
def Spared (s : Session ω) (e : Event ω) : Prop := ∀ p, e = .place p → ¬p.Refused os s.os

end Link

end Jetrun
