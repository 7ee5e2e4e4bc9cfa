import Jetrun.PutFile

/-!
# Inserts that race

Any number of calls of `put_bytes`, `put_tree` and `put_file` run in one store at once, one system
call of one of them after the other. They share the file system and what the store knows of it.
-/

namespace Jetrun

/-- An insert on the way. -/
inductive Put
  | content (call : Call)
  | file (path : Path) (phase : FilePhase)

namespace Put

/-- What it has returned. -/
def result : Put → Option (Except CasError Digest)
  | content c =>
    match c.phase with
    | .done r => some r
    | _ => none
  | file _ phase =>
    match phase with
    | .done r => some (r.map Prod.fst)
    | _ => none

/-- The digest whose staging path it is about to touch for the first time. -/
def enters : Put → Option Digest
  | content c =>
    match c.phase with
    | .create => some c.digest
    | _ => none
  | file _ phase =>
    match phase with
    | .placing d _ .remove => some d
    | _ => none

/-- The digest whose staging path it works on: from then on until the rename. -/
def holds : Put → Option Digest
  | content c => if c.phase.inFlight then some c.digest else none
  | file _ phase =>
    match phase with
    | .placing _ _ .check | .placing _ _ .remove => none
    | .placing d _ _ => some d
    | .finish d _ p => if p.written then some d else none
    | _ => none

/-- It asks for a clone next, which the file system may not know. -/
def clones : Put → Bool
  | file _ (.placing _ _ (.clone ..)) => true
  | _ => false

end Put

structure Puts where
  fs : Files
  caps : Capabilities
  puts : ℕ → Option Put

namespace Puts

variable (b3 : Blake3) (st : ObjectStore) (privileged : Bool)

def begin : Insert → Put
  | .content r => .content ⟨r.digest b3, r.content, .check⟩
  | .file path => .file path .lstat

/-- The next system call of one insert. -/
def advance (fs : Files) (caps : Capabilities) (a : Answer) : Put → Option (Files × Capabilities × Put)
  | .content call => do
    let (fs, phase) ← st.advance privileged call fs a
    pure (fs, caps, .content { call with phase })
  | .file path phase => do
    let s ← Ingest.move b3 st privileged ⟨path, fs, caps, phase⟩ a
    pure (s.fs, s.caps, .file path s.phase)

/-- A new insert begins, or an insert makes its next system call. -/
inductive Turn
  | start (who : ℕ) (i : Insert)
  | move (who : ℕ) (a : Answer)

def turn (s : Puts) : Turn → Option Puts
  | .start who i =>
    match s.puts who with
    | some _ => none
    | none => some { s with puts := Function.update s.puts who (some (begin b3 i)) }
  | .move who a => do
    let p ← s.puts who
    let (fs, caps, p) ← advance b3 st privileged s.fs s.caps a p
    pure ⟨fs, caps, Function.update s.puts who (some p)⟩

/-- Nothing fails: a file that is put is there, outside of the store, a write takes something, and
no system call ends in an error but a clone that the file system does not know. -/
def Unfailing (s : Puts) : Turn → Prop
  | .start _ (.content _) => True
  | .start _ (.file path) => (s.fs.file path).isSome ∧
    ∀ d, path ≠ st.stagingPath d ∧ path ≠ st.objectPath d
  | .move who a => 0 < a.chunk ∧ ∀ e ∈ a.fault, Link.isUnsupported e ∧ ∃ p ∈ s.puts who, p.clones

/-- An insert touches a staging path for the first time only while no other works on it. -/
def Alone (s : Puts) : Turn → Prop
  | .start .. => True
  | .move who _ => ∀ p d, s.puts who = some p → p.enters = some d → ∀ who' p', who' ≠ who →
    s.puts who' = some p' → p'.holds ≠ some d

/-- The digest of what an insert was given, by the files there were at first. -/
def digestOf (fs : Files) : Insert → Digest
  | .content r => r.digest b3
  | .file path => blobDigest b3 ((fs.file path).elim [] fun i => (fs.inode i).content)

end Puts

end Jetrun
