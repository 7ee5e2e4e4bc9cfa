import Jetrun.Lib.PowerLoss
import Jetrun.Storing

/-!
# Inserts that are to survive a power loss

A store that is `synced` is to flush an object before it renames it into place, and the directory
after. A trace shows whether it did.
-/

namespace Jetrun

namespace StoreEvent

/-- It leaves new bytes in a file. -/
def Fills (p : Path) : StoreEvent → Prop
  | write path _ => path = p
  | place path _ => path = p
  | _ => False

/-- What it does to the disk, if it did not fail. -/
def onDisk : StoreEvent → Option (PowerLoss.Op Path)
  | write path _ => some (.write path)
  | place path _ => some (.write path)
  | fsync path (.ok ()) => some (.flush path)
  | rename staged final (.ok ()) => some (.rename staged final)
  | _ => none

end StoreEvent

namespace Storing

section Inserts

variable (b3 : Blake3) (st : ObjectStore)

/-- The call itself. -/
def perform : Insert → Storing Digest
  | .content r => putContent b3 st r
  | .file path => do
    let (d, _) ← putFile b3 st path
    pure d

/-- The session in which `put_file` places the content of a file of this size. -/
def placing (w : Link.Session Machine) (size : ℕ) : Link.Session Machine :=
  { w with os := w.os.later (hashCalls size + 2) }

/-- A run of calls that change nothing and of inserts that succeed, with its trace. -/
inductive Inserting : Link.Session Machine → List StoreEvent → Link.Session Machine → Prop
  | done (w) : Inserting w [] w
  | query {w trace w'} : Inserting { w with os := w.os.after w.os.volume } trace w' →
      Inserting w trace w'
  | insert {w trace w'} (i : Insert) (d : Digest) : (perform b3 st i w).result = .ok d →
      Inserting (perform b3 st i w).world trace w' → Inserting w ((perform b3 st i w).trace ++ trace) w'

end Inserts

end Storing

end Jetrun
