import Jetrun.Link
import Jetrun.Staging

/-!
# Ingest of one file, one system call at a time

The file is read once for its digest and once more for its content, and its owner may rewrite it at
any time in between. One step is one system call of `put_file`, with what the system answers, or one
rewrite by the owner. A descriptor stays on its inode when the owner puts another file in its place.
-/

namespace Jetrun

/-- The system call that places the content of a file makes next. -/
inductive Placing
  | check
  | remove
  | cloneOpen
  | cloneCreate (src : ℕ)
  | clone (src dst : ℕ)
  | undo (e : IoError)
  | copyOpen
  | copyCreate (src mode : ℕ)
  | copy (src dst offset : ℕ)
  | discard
  | reopen
  | create (src : ℕ)
  | stream (src dst offset : ℕ)

/-- The system call `put_file` makes next. `fed` is what was read for the digest so far. -/
inductive FilePhase
  | lstat
  | hashOpen (size : ℕ)
  | hashRead (size fd : ℕ) (fed : List (List UInt8))
  | placing (d : Digest) (size : ℕ) (p : Placing)
  | finish (d : Digest) (size : ℕ) (p : Phase)
  | done (result : Except CasError (Digest × ℕ))

/-- The file that the next step reads from. -/
def FilePhase.reads : FilePhase → Option ℕ
  | .hashRead _ fd _ => some fd
  | .placing _ _ (.clone src _) => some src
  | .placing _ _ (.copy src _ _) => some src
  | .placing _ _ (.stream src _ _) => some src
  | _ => none

/-- A call of `put_file` on the file at `path`, and the file system it runs in. -/
structure Ingest where
  path : Path
  fs : Files
  caps : Capabilities
  phase : FilePhase

namespace Ingest

section Calls

/-- What one read at an offset returns; nothing at the end of the file. -/
def readAt (fs : Files) (fd offset chunk : ℕ) : List UInt8 :=
  ((fs.inode fd).content.drop offset).take (max 1 chunk)

/-- Remove a file, whatever comes of it. -/
def drop (fs : Files) (p : Path) (a : Answer) : Files :=
  if a.fault = none then (fs.unlink p).getD fs else fs

/-- Whether a clone that failed is worth a copy. -/
def cloneFailed (s : Ingest) (e : IoError) : Ingest × Placing :=
  if Link.isUnsupported e then ({ s with caps := ⟨some false⟩ }, .copyOpen) else (s, .discard)

end Calls

section Steps

variable (b3 : Blake3) (st : ObjectStore) (privileged : Bool)

def failed (s : Ingest) (op : String) (path : Path) (e : IoError) : Ingest :=
  { s with phase := .done (.error (.io op path e)) }

/-- Put a file in place of the staging file: `link::materialize`, then the streaming copy. -/
def place (s : Ingest) (d : Digest) (size : ℕ) (a : Answer) : Placing → Ingest :=
  let staged := st.stagingPath d
  let go (s : Ingest) (p : Placing) : Ingest := { s with phase := .placing d size p }
  let turnBack (s : Ingest) (e : IoError) : Ingest :=
    let (s, p) := s.cloneFailed e
    go s p
  let begin (s : Ingest) : Ingest := go s (if s.caps.reflink = some false then .copyOpen else .cloneOpen)
  fun
  | .check =>
    if a.fault = none ∧ (s.fs.file (st.objectPath d)).isSome then
      { s with phase := .done (.ok (d, size)) }
    else go s .remove
  | .remove =>
    match a.result (s.fs.unlink staged) .notFound with
    | .ok fs => begin { s with fs }
    | .error .notFound => begin s
    | .error _ => go s .discard
  | .cloneOpen =>
    match a.result (s.fs.file s.path) .notFound with
    | .ok src => go s (.cloneCreate src)
    | .error e => turnBack s e
  | .cloneCreate src =>
    match a.fault with
    | some e => turnBack s e
    | none =>
      if (s.fs.file staged).isSome then turnBack s .alreadyExists
      else go { s with fs := s.fs.create staged ⟨[], createMode⟩ } (.clone src s.fs.next)
  | .clone src dst =>
    match a.fault with
    | some e => go s (.undo e)
    | none =>
      { s with
        fs := s.fs.setInode dst ⟨(s.fs.inode src).content, (s.fs.inode dst).mode⟩
        caps := ⟨some true⟩
        phase := .finish d size .stat }
  | .undo e => turnBack { s with fs := drop s.fs staged a } e
  | .copyOpen =>
    match a.result (s.fs.file s.path) .notFound with
    | .ok src => go s (.copyCreate src (s.fs.inode src).mode)
    | .error _ => go s .discard
  | .copyCreate src mode =>
    match a.result (s.fs.openTruncate privileged mode staged) .permissionDenied with
    | .ok (fs, dst) => go { s with fs := fs.setInode dst ⟨[], mode⟩ } (.copy src dst 0)
    | .error _ => go s .discard
  | .copy src dst offset =>
    match a.fault with
    | some _ => go s .discard
    | none =>
      let bytes := readAt s.fs src offset a.chunk
      if bytes = [] then { s with phase := .finish d size .stat }
      else go { s with fs := s.fs.write dst offset bytes } (.copy src dst (offset + bytes.length))
  | .discard => go { s with fs := drop s.fs staged a } .reopen
  | .reopen =>
    match a.result (s.fs.file s.path) .notFound with
    | .ok src => go s (.create src)
    | .error e => s.failed "open for ingest" s.path e
  | .create src =>
    match a.result (s.fs.openTruncate privileged createMode staged) .permissionDenied with
    | .ok (fs, dst) => go { s with fs } (.stream src dst 0)
    | .error e => s.failed "create staging file" staged e
  | .stream src dst offset =>
    match a.fault with
    | some e => s.failed "write staging file" staged e
    | none =>
      let bytes := readAt s.fs src offset a.chunk
      if bytes = [] then
        { s with phase := .finish d size (if st.durability = .synced then .sync else .stat) }
      else go { s with fs := s.fs.write dst offset bytes } (.stream src dst (offset + bytes.length))

/-- The next system call of `put_file`. -/
def move (s : Ingest) (a : Answer) : Option Ingest :=
  match s.phase with
  | .lstat =>
    match a.fault, s.fs.file s.path with
    | some e, _ => some (s.failed "stat for ingest" s.path e)
    | none, some i => some { s with phase := .hashOpen (s.fs.inode i).content.length }
    | none, none =>
      if s.fs.dir s.path then some { s with phase := .done (.error (.notAFile s.path)) }
      else some (s.failed "stat for ingest" s.path .notFound)
  | .hashOpen size =>
    match a.result (s.fs.file s.path) .notFound with
    | .ok fd => some { s with phase := .hashRead size fd [] }
    | .error e =>
      let op := if size ≤ smallFileLimit then "read for hashing" else "open for hashing"
      some (s.failed op s.path e)
  | .hashRead size fd fed =>
    match a.fault with
    | some e => some (s.failed "read for hashing" s.path e)
    | none =>
      let bytes := readAt s.fs fd fed.flatten.length a.chunk
      if bytes = [] then
        let d := hashFile b3 ⟨true, fed.flatten, fed⟩ size
        some { s with phase := .placing d size .check }
      else some { s with phase := .hashRead size fd (fed ++ [bytes]) }
  | .placing d size p => some (place st privileged s d size a p)
  | .finish d size p => do
    -- `seal_and_commit`
    let (fs, p) ← st.advance privileged ⟨d, [], p⟩ s.fs a
    match p with
    | .done result => pure { s with fs, phase := .done (result.map fun d => (d, size)) }
    | p => pure { s with fs, phase := .finish d size p }
  | .done _ => none

/-- A system call of `put_file`, or a rewrite of its file: in place, or by another file. -/
inductive Turn
  | rewrite (content : List UInt8)
  | replace (content : List UInt8) (mode : ℕ)
  | move (a : Answer)

def turn (s : Ingest) : Turn → Option Ingest
  | .rewrite content =>
    (s.fs.file s.path).map fun i =>
      { s with fs := s.fs.setInode i ⟨content, (s.fs.inode i).mode⟩ }
  | .replace content mode => some { s with fs := s.fs.create s.path ⟨content, mode⟩ }
  | .move a => move b3 st privileged s a

end Steps

/-- Whenever the call reads from the file, it holds this content. In between its owner may rewrite
it at will. -/
def Steady (content : List UInt8) (s : Ingest) : Turn → Prop
  | .move _ => ∀ fd ∈ s.phase.reads, (s.fs.inode fd).content = content
  | _ => True

instance (content : List UInt8) (s : Ingest) : ∀ t, Decidable (Steady content s t)
  | .rewrite _ => .isTrue trivial
  | .replace .. => .isTrue trivial
  | .move _ => inferInstanceAs (Decidable (∀ fd ∈ s.phase.reads, _))

end Ingest

end Jetrun
