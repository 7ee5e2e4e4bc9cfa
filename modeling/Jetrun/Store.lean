import Mathlib.Data.Finset.Card
import Mathlib.Data.List.AList
import Jetrun.Fs
import Jetrun.Lib.Marking
import Jetrun.Lib.Runs
import Jetrun.Tree

/-!
# The object store

`<root>/objects/<ab>/<64-hex>` holds blobs and manifests. The disk is what stands under `objects/`:
a file for each path, with its content and the time it was last written. An insert that succeeds
leaves one new file there, and one that fails leaves none; its steps in the staging area are
modelled apart. Times count up from zero.

What the operating system answers is a parameter of each operation: which call fails, and how a
listing is ordered.
-/

namespace Jetrun

/-- Files up to this size are hashed from one read. -/
def smallFileLimit : ℕ := 2 ^ 20

/-- How hard to try to survive a crash. -/
inductive Durability
  | relaxed
  | synced
deriving DecidableEq

inductive CasError
  | io (op : String) (path : Path) (source : IoError)
  | missing (digest : Digest)
  | corrupt (expected actual : Digest)
  | notAFile (path : Path)
  | unsupportedFileType (path : Path)
  | nonUtf8Name (path : Path)
  | destinationExists (path : Path)
  | treeTooDeep (limit : ℕ)
  | tree (error : TreeError)
deriving DecidableEq

/-- A file under `objects/`. -/
structure Object where
  content : List UInt8
  modified : ℕ
deriving DecidableEq

abbrev Disk := AList fun _ : Path => Object

/-- Counters from a garbage collection pass. -/
structure GcStats where
  live : ℕ
  deleted : ℕ
  bytesFreed : ℕ
  sparedYoung : ℕ
deriving DecidableEq

/-- An open store: its objects and its staging area stand in two directories of its root. -/
structure ObjectStore where
  root : Path
  objects : Path
  tmp : Path
  durability : Durability
  objects_eq : objects = root.push "objects"
  tmp_eq : tmp = root.push "tmp"

/-- The content of a blob, named in the blob namespace. -/
def blobDigest (b3 : Blake3) (bytes : List UInt8) : Digest :=
  ((Hasher.keyed b3 Context.blob).update bytes).finalize b3

/-- A file to ingest: what one read of all of it returns, and what successive reads return. -/
structure SourceFile where
  isFile : Bool
  content : List UInt8
  reads : List (List UInt8)

namespace SourceFile

def size (f : SourceFile) : ℕ := f.content.length

/-- Both ways to read the file find the same content. -/
def Unchanging (f : SourceFile) : Prop := f.reads.flatten = f.content

end SourceFile

def hashFile (b3 : Blake3) (f : SourceFile) (size : ℕ) : Digest :=
  if size ≤ smallFileLimit then blobDigest b3 f.content
  else (f.reads.foldl Hasher.update (Hasher.keyed b3 Context.blob)).finalize b3

/-- What a put meets: whether the existence check itself fails, and the error its insert ends in. -/
structure PutIo where
  statFails : Bool
  insertError : Option CasError

/-- What `put_file` meets before it inserts: the call that fails, if one does. -/
structure PutFileIo extends PutIo where
  statError : Option IoError
  readError : Option CasError

/-- An entry of a fan-out directory: its name, whether its metadata and its modification time can be
had, and how an attempt to remove it ends. -/
structure DirEntry where
  name : String
  metadata : Bool
  modified : Bool
  unlink : Option IoError

/-- What listing `objects/` yields: an error, something that is no directory, a directory that
cannot be listed, or one with its entries. -/
inductive Fan
  | failed (e : IoError)
  | other
  | unreadable (name : String) (e : IoError)
  | listed (name : String) (entries : List (Except IoError DirEntry))

namespace ObjectStore

def openWith (root : Path) (durability : Durability) : ObjectStore :=
  { root, objects := root.push "objects", tmp := root.push "tmp", durability, objects_eq := rfl,
    tmp_eq := rfl }

section Files

variable (b3 : Blake3) (st : ObjectStore)

/-- The path an object occupies, whether or not it exists. -/
def objectPath (d : Digest) : Path := (st.objects.push d.fanout).push d.toHex

def has (disk : Disk) (d : Digest) : Bool := disk.keys.contains (st.objectPath d)

/-- The bytes of an object, from what reading its file answers. -/
def bytesOf (d : Digest) (reply : Except IoError (List UInt8)) : Except CasError (List UInt8) :=
  match reply with
  | .ok bytes => .ok bytes
  | .error .notFound => .error (.missing d)
  | .error e => .error (.io "read object" (st.objectPath d) e)

def treeOf (d : Digest) (reply : Except IoError (List UInt8)) : Except CasError Tree := do
  let bytes ← st.bytesOf d reply
  let tree ← (Tree.decode bytes).mapError .tree
  let actual := tree.digest b3
  if actual ≠ d then throw (.corrupt d actual)
  pure tree

def readFile (disk : Disk) (path : Path) : Except IoError (List UInt8) :=
  match disk.lookup path with
  | some o => .ok o.content
  | none => .error .notFound

def getBytes (disk : Disk) (d : Digest) : Except CasError (List UInt8) :=
  st.bytesOf d (readFile disk (st.objectPath d))

def getTree (disk : Disk) (d : Digest) : Except CasError Tree :=
  st.treeOf b3 d (readFile disk (st.objectPath d))

/-- The effect of an insert: the object stands there complete, or the call fails. -/
def insert (disk : Disk) (now : ℕ) (d : Digest) (content : List UInt8) (io : PutIo) :
    Disk × Except CasError Unit :=
  match io.insertError with
  | some e => (disk, .error e)
  | none => (disk.insert (st.objectPath d) ⟨content, now⟩, .ok ())

/-- The part every put shares: nothing to do if the object is there. -/
def putObject (disk : Disk) (now : ℕ) (d : Digest) (content : List UInt8) (io : PutIo) :
    Disk × Except CasError Digest :=
  if !io.statFails && st.has disk d then (disk, .ok d)
  else
    let (disk, result) := st.insert disk now d content io
    (disk, result.map fun _ => d)

def putBytes (disk : Disk) (now : ℕ) (bytes : List UInt8) (io : PutIo) :
    Disk × Except CasError Digest :=
  st.putObject disk now (blobDigest b3 bytes) bytes io

def putTree (disk : Disk) (now : ℕ) (tree : Tree) (io : PutIo) : Disk × Except CasError Digest :=
  st.putObject disk now (tree.digest b3) tree.encode io

def putFile (disk : Disk) (now : ℕ) (path : Path) (file : SourceFile) (io : PutFileIo) :
    Disk × Except CasError (Digest × ℕ) :=
  match io.statError with
  | some e => (disk, .error (.io "stat for ingest" path e))
  | none =>
    if !file.isFile then (disk, .error (.notAFile path))
    else match io.readError with
      | some e => (disk, .error e)
      | none =>
        let (disk, result) :=
          st.putObject disk now (hashFile b3 file file.size) file.content io.toPutIo
        (disk, result.map fun d => (d, file.size))

end Files

section Gc

variable (b3 : Blake3) (st : ObjectStore)

/-- What an object refers to, if it decodes to a tree of that name. -/
def refs (disk : Disk) : Marking.Refs Digest := fun d =>
  match st.getTree b3 disk d with
  | .ok tree => some (tree.blobDigests, tree.subtreeDigests)
  | .error _ => none

/-- The digest a file's name spells. -/
def fileDigest (p : Path) : Option Digest := p.fileName.bind fun n => (Digest.parse n).toOption

/-- Every digest that some file under `objects/` is named by. -/
def named (disk : Disk) : List Digest := disk.keys.filterMap fileDigest

/-- The digests the mark loop ends with. -/
def mark (disk : Disk) (roots : List Digest) : Finset Digest :=
  (Marking.markLoop (st.refs b3 disk) (Marking.turns (st.refs b3 disk) (named disk) roots)
    ⟨∅, roots.reverse⟩).live

/-- What a sweep works on: the disk and the counters so far. -/
structure Sweep where
  disk : Disk
  stats : GcStats

/-- One file of a fan-out directory: kept, spared or removed. -/
def sweepEntry (live : Finset Digest) (now minAge : ℕ) (fanPath : Path) (entry : DirEntry)
    (s : Sweep) : Sweep × Option CasError :=
  let path := fanPath.push entry.name
  match fileDigest path with
  | none => (s, none)
  | some digest =>
    if digest ∈ live then (s, none)
    else match (if entry.metadata then s.disk.lookup path else none) with
      | none => (s, none)
      | some object =>
        let age := if entry.modified then now - object.modified else 0
        if age < minAge then
          ({ s with stats.sparedYoung := s.stats.sparedYoung + 1 }, none)
        else match entry.unlink with
          | none =>
            ({ disk := s.disk.erase path
               stats := { s.stats with
                 deleted := s.stats.deleted + 1
                 bytesFreed := s.stats.bytesFreed + object.content.length } }, none)
          | some .notFound => (s, none)
          | some e => (s, some (.io "unlink object" path e))

def sweepEntries (live : Finset Digest) (now minAge : ℕ) (fanPath : Path) :
    List (Except IoError DirEntry) → Sweep → Sweep × Option CasError
  | [], s => (s, none)
  | .error e :: _, s => (s, some (.io "read fanout entry" fanPath e))
  | .ok entry :: entries, s =>
    match sweepEntry live now minAge fanPath entry s with
    | (s, some e) => (s, some e)
    | (s, none) => sweepEntries live now minAge fanPath entries s

def sweepFans (live : Finset Digest) (now minAge : ℕ) :
    List Fan → Sweep → Sweep × Option CasError
  | [], s => (s, none)
  | .failed e :: _, s => (s, some (.io "read objects dir entry" st.objects e))
  | .other :: fans, s => sweepFans live now minAge fans s
  | .unreadable name e :: _, s => (s, some (.io "read fanout" (st.objects.push name) e))
  | .listed name entries :: fans, s =>
    match sweepEntries live now minAge (st.objects.push name) entries s with
    | (s, some e) => (s, some e)
    | (s, none) => sweepFans live now minAge fans s

/-- Mark and sweep from `roots`. `listing` is what reading `objects/` yields. -/
def gc (disk : Disk) (now : ℕ) (roots : List Digest) (minAge : ℕ)
    (listing : Except IoError (List Fan)) : Disk × Except CasError GcStats :=
  let live := st.mark b3 disk roots
  let stats : GcStats := { live := live.card, deleted := 0, bytesFreed := 0, sparedYoung := 0 }
  match listing with
  | .error e => (disk, .error (.io "read objects dir" st.objects e))
  | .ok fans =>
    match st.sweepFans live now minAge fans ⟨disk, stats⟩ with
    | (s, some e) => (s.disk, .error e)
    | (s, none) => (s.disk, .ok s.stats)

end Gc

section Run

variable (b3 : Blake3) (st : ObjectStore)

/-- An operation of a run, with what the operating system answers it. -/
inductive Op
  | putBytes (bytes : List UInt8) (io : PutIo)
  | putFile (path : Path) (file : SourceFile) (io : PutFileIo)
  | putTree (tree : Tree) (io : PutIo)
  | gc (roots : List Digest) (minAge : ℕ) (listing : Except IoError (List Fan))

/-- The digest of the object a put is about. -/
def Op.target : Op → Option Digest
  | .putBytes bytes _ => some (blobDigest b3 bytes)
  | .putFile _ file _ => some (hashFile b3 file file.size)
  | .putTree tree _ => some (tree.digest b3)
  | .gc .. => none

/-- What an operation leaves on disk, and the digest it returned if it is a put that succeeded. -/
def apply (disk : Disk) (now : ℕ) : Op → Disk × Option Digest
  | .putBytes bytes io =>
    let (disk, result) := st.putBytes b3 disk now bytes io
    (disk, result.toOption)
  | .putFile path file io =>
    let (disk, result) := st.putFile b3 disk now path file io
    (disk, result.toOption.map Prod.fst)
  | .putTree tree io =>
    let (disk, result) := st.putTree b3 disk now tree io
    (disk, result.toOption)
  | .gc roots minAge listing => ((st.gc b3 disk now roots minAge listing).1, none)

/-- A store in use: its disk, the time of the last operation, and the puts that succeeded so far
with their times. -/
structure InUse where
  disk : Disk
  clock : ℕ
  puts : List (Digest × ℕ)

/-- One operation after another, at times that do not decrease. -/
def step (s : InUse) (op : ℕ × Op) : Option InUse :=
  if op.1 < s.clock then none
  else
    let (disk, put) := st.apply b3 s.disk op.1 op.2
    some { disk, clock := op.1, puts := (put.map fun d => (d, op.1)).toList ++ s.puts }

end Run

end ObjectStore

end Jetrun
