import Jetrun.Lib.Inodes
import Jetrun.Store

/-!
# Inserts, one system call at a time

Any number of calls put blobs and trees into one store at once. A call checks for its object, writes
the content to the staging path of its digest, seals that file and renames it into place. One step
is one system call of one call, and the label says which call moves and what the system answers: an
error, or how many bytes a write takes.
-/

namespace Jetrun

/-- Read-only for everyone. -/
def objectMode : ℕ := 0o444

/-- The mode a new file gets. -/
def createMode : ℕ := 0o644

/-- What a call puts into the store. -/
inductive Request
  | bytes (bytes : List UInt8)
  | tree (tree : Tree)

namespace Request

def digest (b3 : Blake3) : Request → Digest
  | .bytes b => blobDigest b3 b
  | .tree t => t.digest b3

def content : Request → List UInt8
  | .bytes b => b
  | .tree t => t.encode

end Request

/-- A call that inserts one object: `put_bytes` and `put_tree` of content, or `put_file`. -/
inductive Insert
  | content (request : Request)
  | file (path : Path)

/-- The system call a put makes next. -/
inductive Phase
  | check
  | create
  | write (fd offset : ℕ)
  | sync
  | stat
  | chmod
  | fanout
  | commit
  | cleanup (e : IoError)
  | syncDir
  | done (result : Except CasError Digest)

namespace Phase

/-- The descriptor of the staging file and how much was written through it. -/
def descriptor : Phase → Option (ℕ × ℕ)
  | write fd offset => some (fd, offset)
  | _ => none

/-- The content is written and not yet renamed into place. -/
def written : Phase → Bool
  | sync | stat | chmod | fanout | commit => true
  | _ => false

/-- Between opening the staging file and renaming it. -/
def inFlight (p : Phase) : Bool := p.descriptor.isSome || p.written

end Phase

structure Call where
  digest : Digest
  content : List UInt8
  phase : Phase

/-- What the system answers: an error, or else how many bytes a write takes. -/
structure Answer where
  fault : Option IoError
  chunk : ℕ

namespace Answer

/-- The result of a system call that the file system itself may refuse with `e`. -/
def result {α : Type} (a : Answer) (r : Option α) (e : IoError) : Except IoError α :=
  match a.fault, r with
  | some e', _ => .error e'
  | none, some x => .ok x
  | none, none => .error e

end Answer

abbrev Files := Inodes.Fs Path

namespace ObjectStore

variable (b3 : Blake3) (st : ObjectStore) (privileged : Bool)

def stagingPath (d : Digest) : Path := st.tmp.push (d.toHex ++ ".staging")

/-- The directory an object stands in. -/
def fanoutPath (d : Digest) : Path := st.objects.push d.fanout

/-- The next system call of one call: `has`, then `insert_staged`, then `seal_and_commit`. -/
def advance (call : Call) (fs : Files) (a : Answer) : Option (Files × Phase) :=
  let d := call.digest
  let staged := st.stagingPath d
  let failed (op : String) (path : Path) (e : IoError) : Phase := .done (.error (.io op path e))
  match call.phase with
  | .check =>
    if a.fault = none ∧ (fs.file (st.objectPath d)).isSome then some (fs, .done (.ok d))
    else some (fs, .create)
  | .create =>
    match a.result (fs.openTruncate privileged createMode staged) .permissionDenied with
    | .error e => some (fs, failed "create staging file" staged e)
    | .ok (fs, fd) => some (fs, .write fd 0)
  | .write fd offset =>
    if offset < call.content.length then
      match a.fault with
      | some e => some (fs, failed "write staging file" staged e)
      | none =>
        let bytes := (call.content.drop offset).take a.chunk
        -- a write that takes nothing ends the loop with an error of its own
        if bytes = [] then some (fs, failed "write staging file" staged (.other 0))
        else some (fs.write fd offset bytes, .write fd (offset + bytes.length))
    else some (fs, if st.durability = .synced then .sync else .stat)
  | .sync =>
    match a.fault with
    | some e => some (fs, failed "fsync staging file" staged e)
    | none => some (fs, .stat)
  | .stat =>
    match a.result (fs.file staged) .notFound with
    | .error e => some (fs, failed "stat staging file" staged e)
    | .ok _ => some (fs, .chmod)
  | .chmod =>
    match a.result (fs.setMode staged objectMode) .notFound with
    | .error e => some (fs, failed "seal staging file" staged e)
    | .ok fs => some (fs, .fanout)
  | .fanout =>
    match a.fault with
    | some e => some (fs, failed "create fanout dir" (st.fanoutPath d) e)
    | none => some (fs.mkdir (st.fanoutPath d), .commit)
  | .commit =>
    let renamed := if fs.dir (st.fanoutPath d) then fs.rename staged (st.objectPath d) else none
    match a.result renamed .notFound with
    | .error e => some (fs, .cleanup e)
    | .ok fs => some (fs, if st.durability = .synced then .syncDir else .done (.ok d))
  | .cleanup e =>
    -- the result of the removal is ignored
    let fs' := if a.fault = none then (fs.unlink staged).getD fs else fs
    some (fs', failed "commit object" (st.objectPath d) e)
  | .syncDir => some (fs, .done (.ok d))
  | .done _ => none

/-- The file system and the calls made so far, each with its number. -/
structure Inserts where
  fs : Files
  calls : ℕ → Option Call

/-- A new call begins, or a call makes its next system call. -/
inductive Turn
  | start (who : ℕ) (request : Request)
  | move (who : ℕ) (a : Answer)

def turn (s : Inserts) : Turn → Option Inserts
  | .start who request =>
    match s.calls who with
    | some _ => none
    | none => some { s with
        calls := Function.update s.calls who (some ⟨request.digest b3, request.content, .check⟩) }
  | .move who a => do
    let call ← s.calls who
    let (fs, phase) ← st.advance privileged call s.fs a
    pure { fs, calls := Function.update s.calls who (some { call with phase }) }

/-- Content that a digest may name: of a blob or of a manifest. -/
def Names (d : Digest) (content : List UInt8) : Prop :=
  blobDigest b3 content = d ∨ Digest.keyed b3 Context.tree content = d

end ObjectStore

end Jetrun
