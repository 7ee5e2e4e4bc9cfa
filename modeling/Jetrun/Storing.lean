import Jetrun.Machine
import Jetrun.Materialize

/-!
# A store on a machine

The operations of a store as programs, one call of the operating system after the other, on a volume
that holds the store and everything else. The trace says what was put and what became of it. A
program that would need more stack, or more turns of a loop, than it is given stops.
-/

namespace Jetrun

open Volumes

/-- Why a program ends without a result. -/
inductive Stop
  | failed (e : CasError)
  | overflow
deriving DecidableEq

/-- What a store does with what it is given: `put` is content it names, and `stored` content that a
put answered for. The rest is what happens to files. -/
inductive StoreEvent
  | put (request : Request)
  | write (path : Path) (result : Except IoError Unit)
  | place (path : Path) (result : Except IoError LinkMode)
  | fsync (path : Path) (result : Except IoError Unit)
  | rename (staged final : Path) (result : Except IoError Unit)
  | stored (request : Request)

abbrev Storing (α : Type) := Traced (Link.Session Machine) Stop StoreEvent α

namespace Storing

variable {α : Type}

section Calls

def call (f : StateM Machine α) : Storing α := Traced.act (Link.call f)

def emit (e : StoreEvent) : Storing Unit := Traced.emit e

def fail (e : CasError) : Storing α := Traced.fail (.failed e)

/-- Go on with the result of a call, or fail with its error. -/
def check (op : String) (path : Path) (result : Except IoError α) : Storing α :=
  Traced.ofExcept (result.mapError fun e => .failed (.io op path e))

end Calls

variable (b3 : Blake3) (st : ObjectStore)

section Puts

def has (d : Digest) : Storing Bool := call (Machine.pathExists (st.objectPath d))

def fsync (path : Path) : Storing (Except IoError Unit) := do
  let result ← call Machine.signal
  emit (.fsync path result)
  pure result

/-- The name of an object is to survive a crash too. What comes of it is ignored. -/
def syncParent (parent : Path) : Storing Unit :=
  if st.durability = .synced then do
    match ← call Machine.signal with
    | .ok () => do
      let _ ← fsync parent
      pure ()
    | .error _ => pure ()
  else pure ()

/-- Make `staged` read-only and rename it into its final object path. -/
def sealAndCommit (d : Digest) (staged : Path) : Storing Unit := do
  let _ ← check "stat staging file" staged (← call (Machine.metadata staged))
  check "seal staging file" staged (← call (Machine.setPermissions staged objectMode))
  let final := st.objectPath d
  let parent := st.fanoutPath d
  check "create fanout dir" parent (← call (Machine.createDirAll parent))
  let result ← call (Machine.rename staged final)
  emit (.rename staged final result)
  match result with
  | .ok () => syncParent st parent
  | .error e => do
    let _ ← call (Machine.removeFile staged)
    fail (.io "commit object" final e)

def syncStaged (staged : Path) : Storing Unit :=
  if st.durability = .synced then do
    check "fsync staging file" staged (← fsync staged)
  else pure ()

/-- Run `write` against a fresh staging file, then commit it. -/
def insertStaged (d : Digest) (write : ℕ → StateM Machine (Except IoError Unit)) : Storing Unit := do
  let staged := st.stagingPath d
  let fd ← check "create staging file" staged (← call (Machine.openWrite staged))
  let result ← call (write fd)
  emit (.write staged result)
  check "write staging file" staged result
  syncStaged st staged
  sealAndCommit st d staged

/-- The part that `put_bytes` and `put_tree` share. -/
def putContent (r : Request) : Storing Digest := do
  let d := r.digest b3
  emit (.put r)
  if ← has st d then
    emit (.stored r)
    pure d
  else
    insertStaged st d fun fd => Machine.writeAll fd r.content
    emit (.stored r)
    pure d

def putBytes (bytes : List UInt8) : Storing Digest := putContent b3 st (.bytes bytes)

def putTree (tree : Tree) : Storing Digest := putContent b3 st (.tree tree)

/-- The hasher of a file, fed with all of it. -/
def hashFile (path : Path) (size : ℕ) : Storing Hasher :=
  if size ≤ smallFileLimit then do
    let bytes ← check "read for hashing" path (← call (Machine.read path))
    pure ((Hasher.keyed b3 Context.blob).update bytes)
  else do
    let fd ← check "open for hashing" path (← call (Machine.openFile path))
    let chunks ← check "read for hashing" path (← call (Machine.readChunks fd))
    pure (chunks.foldl Hasher.update (Hasher.keyed b3 Context.blob))

/-- How many calls that takes. -/
def hashCalls (size : ℕ) : ℕ := if size ≤ smallFileLimit then 1 else 2

/-- Place the content of a file without moving bytes, or fall back to a plain streaming copy. -/
def placeContent (path : Path) (d : Digest) : Storing Unit := do
  let staged := st.stagingPath d
  let placed ← Traced.act (Link.materialize Machine.os path staged .privateInode)
  emit (.place staged placed)
  match placed with
  | .ok _ => sealAndCommit st d staged
  | .error _ => do
    let _ ← call (Machine.removeFile staged)
    let src ← check "open for ingest" path (← call (Machine.openFile path))
    insertStaged st d (Machine.copyAll src)

def putFile (path : Path) : Storing (Digest × ℕ) := do
  let stat ← check "stat for ingest" path (← call (Machine.symlinkMetadata path))
  if stat.fileType ≠ .file then fail (.notAFile path)
  else do
    let hasher ← hashFile b3 path stat.len
    let d := hasher.finalize b3
    emit (.put (.bytes hasher.fed))
    if ← has st d then
      emit (.stored (.bytes hasher.fed))
      pure (d, stat.len)
    else
      placeContent st path d
      emit (.stored (.bytes hasher.fed))
      pure (d, stat.len)

end Puts

section Ingest

/-- What a tree holds for one entry, with `into` for its directories. -/
def nodeOf (into : Path → Storing Tree) (path : Path) (stat : Metadata) : Storing Node :=
  match stat.fileType with
  | .symlink => do
    let target ← check "read_link" path (← call (Machine.readLink path))
    match Utf8.decode target with
    | some target => pure (.symlink target)
    | none => fail (.nonUtf8Name path)
  | .dir => do
    let sub ← into path
    let d ← putTree b3 st sub
    pure (.dir d)
  | .file => do
    let (d, size) ← putFile b3 st path
    pure (.file d (UInt64.ofNat size) (stat.mode &&& 0o100 ≠ 0))
  | .other => fail (.unsupportedFileType path)

def ingestEntry (into : Path → Storing Tree) (dir : Path) (tree : Tree) (entry : Listed) :
    Storing Tree := do
  check "read_dir entry" dir (← call Machine.signal)
  match entry with
  | .odd shown => fail (.nonUtf8Name (dir ++ [shown]))
  | .plain text => do
    let path := dir ++ [text]
    let name ← Traced.ofExcept ((EntryName.new text).mapError fun e => .failed (.tree e))
    let stat ← check "stat entry" path (← call (Machine.symlinkMetadata path))
    let node ← nodeOf b3 st into path stat
    pure (tree.insert name node)

/-- The tree of a directory, which may be `stack` levels deep. -/
def ingestDirInner : ℕ → Path → Storing Tree
  | 0, _ => Traced.fail .overflow
  | stack + 1, dir => do
    let entries ← check "read_dir" dir (← call (Machine.readDir dir))
    let tree ← entries.foldlM (ingestEntry b3 st (ingestDirInner stack) dir) Tree.new
    -- the listing is asked once more for its end
    check "read_dir entry" dir (← call Machine.signal)
    pure tree

def ingestDir (stack : ℕ) (dir : Path) : Storing Digest := do
  let tree ← ingestDirInner b3 st stack dir
  putTree b3 st tree

end Ingest

section Reads

def getBytes (d : Digest) : Storing (List UInt8) := do
  let reply ← call (Machine.read (st.objectPath d))
  Traced.ofExcept ((st.bytesOf d reply).mapError .failed)

/-- The tree some object decodes to, or why it does not. -/
def getTree (d : Digest) : Storing (Except CasError Tree) := do
  let reply ← call (Machine.read (st.objectPath d))
  pure (st.treeOf b3 d reply)

def materializeTree (intent : Intent) (d : Digest) (dest : Path) : Storing MaterializeStats :=
  fun s =>
    let o := st.materializeTree Machine.os b3 intent d dest ⟨s, .zero⟩
    ⟨o.result.mapError .failed, o.world.session, []⟩

end Reads

section Gc

def refsOf : Except CasError Tree → Option (List Digest × List Digest)
  | .ok tree => some (tree.blobDigests, tree.subtreeDigests)
  | .error _ => none

/-- The mark loop, for at most so many turns. -/
def mark : ℕ → Marking.State Digest → Storing (Finset Digest)
  | _, ⟨live, []⟩ => pure live
  | 0, _ => Traced.fail .overflow
  | turns + 1, ⟨live, d :: queue⟩ =>
    if d ∈ live then mark turns ⟨live, queue⟩
    else do
      let tree ← getTree b3 st d
      mark turns (Marking.markStep (fun _ => refsOf tree) ⟨live, d :: queue⟩)

/-- One file of a fan-out directory: kept, spared or removed. -/
def sweepEntry (live : Finset Digest) (now minAge : ℕ) (fanPath : Path) (stats : GcStats)
    (entry : Listed) : Storing GcStats := do
  check "read fanout entry" fanPath (← call Machine.signal)
  match entry with
  | .odd _ => pure stats
  | .plain text =>
    let path := fanPath ++ [text]
    match ObjectStore.fileDigest path with
    | none => pure stats
    | some d =>
      if d ∈ live then pure stats
      else do
        match ← call (Machine.symlinkMetadata path) with
        | .error _ => pure stats
        | .ok stat =>
          if now - stat.modified < minAge then
            pure { stats with sparedYoung := stats.sparedYoung + 1 }
          else do
            match ← call (Machine.removeFile path) with
            | .ok () => pure { stats with
                deleted := stats.deleted + 1
                bytesFreed := stats.bytesFreed + stat.len }
            | .error .notFound => pure stats
            | .error e => fail (.io "unlink object" path e)

def sweepFan (live : Finset Digest) (now minAge : ℕ) (stats : GcStats) (fan : Listed) :
    Storing GcStats := do
  check "read objects dir entry" st.objects (← call Machine.signal)
  match fan with
  | .odd _ => pure stats
  | .plain text => do
    let fanPath := st.objects ++ [text]
    match ← call (Machine.symlinkMetadata fanPath) with
    | .error _ => pure stats
    | .ok stat =>
      if stat.fileType ≠ .dir then pure stats
      else do
        let entries ← check "read fanout" fanPath (← call (Machine.readDir fanPath))
        let stats ← entries.foldlM (sweepEntry live now minAge fanPath) stats
        check "read fanout entry" fanPath (← call Machine.signal)
        pure stats

def sweep (live : Finset Digest) (minAge : ℕ) : Storing GcStats := do
  let now ← call fun m => (m.moment.now, m)
  let stats : GcStats := { live := live.card, deleted := 0, bytesFreed := 0, sparedYoung := 0 }
  let fans ← check "read objects dir" st.objects (← call (Machine.readDir st.objects))
  let stats ← fans.foldlM (sweepFan st live now minAge) stats
  check "read objects dir entry" st.objects (← call Machine.signal)
  pure stats

/-- Mark and sweep from `roots`. -/
def gc (turns : ℕ) (roots : List Digest) (minAge : ℕ) : Storing GcStats := do
  let live ← mark b3 st turns ⟨∅, roots.reverse⟩
  sweep st live minAge

end Gc

end Storing

end Jetrun
