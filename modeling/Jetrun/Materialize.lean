import Jetrun.Lib.Traced
import Jetrun.Link
import Jetrun.Store

/-!
# Writing a tree into a directory

A tree is written into a fresh destination, the directories before what stands in them. Each call
that creates something or changes a mode is an event, whether it succeeds or not.
-/

namespace Jetrun

/-- Counters from a materialization. They wrap around. -/
structure MaterializeStats where
  reflinked : UInt64
  hardlinked : UInt64
  copied : UInt64
  dirs : UInt64
  symlinks : UInt64
  bytes : UInt64
deriving DecidableEq

namespace MaterializeStats

def zero : MaterializeStats := ⟨0, 0, 0, 0, 0, 0⟩

def files (s : MaterializeStats) : UInt64 := s.reflinked + s.hardlinked + s.copied

def record (s : MaterializeStats) (mode : LinkMode) (size : UInt64) : MaterializeStats :=
  let s := { s with bytes := s.bytes + size }
  match mode with
  | .reflink => { s with reflinked := s.reflinked + 1 }
  | .hardlink => { s with hardlinked := s.hardlinked + 1 }
  | .copy => { s with copied := s.copied + 1 }

end MaterializeStats

/-- A call that creates something at a path or changes its mode, and how it ended. -/
inductive FsEvent
  | createDir (path : Path) (result : Except IoError Unit)
  | materialize (src dst : Path) (place : Intent) (result : Except IoError LinkMode)
  | symlink (target : String) (path : Path) (result : Except IoError Unit)
  | chmod (path : Path) (mode : ℕ) (result : Except IoError Unit)

namespace FsEvent

def path : FsEvent → Path
  | createDir path _ => path
  | materialize _ dst _ _ => dst
  | symlink _ path _ => path
  | chmod path _ _ => path

def creates : FsEvent → Bool
  | chmod .. => false
  | _ => true

end FsEvent

/-- A session with the operating system, and the counters of one materialization. -/
structure World (ω : Type) where
  session : Link.Session ω
  stats : MaterializeStats

abbrev Materializing (ω : Type) := Traced (World ω) CasError FsEvent

section Calls

variable {ω α : Type}

def World.within (f : StateM (Link.Session ω) α) : StateM (World ω) α := fun w =>
  let (a, session) := f w.session
  (a, { w with session })

/-- A call of the operating system that is no event. -/
def call (f : StateM ω α) : Materializing ω α := Traced.act (World.within (Link.call f))

def count (f : MaterializeStats → MaterializeStats) : Materializing ω Unit :=
  Traced.act fun w => ((), { w with stats := f w.stats })

/-- Go on with the result of a call, or fail with its error. -/
def check (op : String) (path : Path) (result : Except IoError α) : Materializing ω α :=
  Traced.ofExcept (result.mapError (.io op path))

end Calls

/-- How many directories deep a tree may go below its root. -/
def maxDepth : ℕ := 128

/-- The mode of a file that has an inode of its own. -/
def wantedMode : Intent → Bool → ℕ
  | .privateInode, false => 0o644
  | .privateInode, true => 0o755
  | .overlayLower, false => 0o444
  | .overlayLower, true => 0o555

/-- An executable file cannot share the inode of its object. -/
def placeIntent (intent : Intent) (executable : Bool) : Intent :=
  if executable then .privateInode else intent

namespace ObjectStore

variable {ω : Type} (os : Os ω) (b3 : Blake3) (st : ObjectStore) (intent : Intent)

/-- A hard link keeps the mode of the object. -/
def sealFile (child : Path) (mode : LinkMode) (executable : Bool) : Materializing ω Unit :=
  if mode = .hardlink then pure ()
  else do
    check "stat for chmod" child (← call (os.stat child))
    let want := wantedMode intent executable
    let result ← call (os.setPermissions child want)
    Traced.emit (.chmod child want result)
    check "chmod" child result

def placeFile (child : Path) (digest : Digest) (size : UInt64) (executable : Bool) :
    Materializing ω Unit := do
  let src := st.objectPath digest
  if ← call (os.pathExists src) then
    let place := placeIntent intent executable
    let result ← Traced.act (World.within (Link.materialize os src child place))
    Traced.emit (.materialize src child place result)
    let mode ← check "materialize file" child result
    count (·.record mode size)
    sealFile os intent child mode executable
  else Traced.fail (.missing digest)

/-- One entry of a tree, with `into` for its directories. -/
def placeEntry (into : Digest → Path → Materializing ω Unit) (dest : Path)
    (entry : EntryName × Node) : Materializing ω Unit :=
  let child := dest.push entry.1.text
  match entry.2 with
  | .file digest size executable => st.placeFile os intent child digest size executable
  | .dir digest => into digest child
  | .symlink target => do
    let result ← call (os.symlink target child)
    Traced.emit (.symlink target child result)
    check "symlink" child result
    count fun s => { s with symlinks := s.symlinks + 1 }

/-- The tree `d` at `dest`. It may be `levels` directories deep, this one included. -/
def materializeInto : ℕ → Digest → Path → Materializing ω Unit
  | 0, _, _ => Traced.fail (.treeTooDeep maxDepth)
  | levels + 1, d, dest => do
    let result ← call (os.createDir dest)
    Traced.emit (.createDir dest result)
    check "create dir" dest result
    count fun s => { s with dirs := s.dirs + 1 }
    let reply ← call (os.read (st.objectPath d))
    let tree ← Traced.ofExcept (st.treeOf b3 d reply)
    tree.iter.forM (st.placeEntry os intent (materializeInto levels) dest)

/-- Write the tree named by `d` into `dest`, which must not exist yet. -/
def materializeTree (d : Digest) (dest : Path) : Materializing ω MaterializeStats := do
  match ← call (os.lstat dest) with
  | .ok () => Traced.fail (.destinationExists dest)
  | .error _ => do
    count fun _ => .zero
    st.materializeInto os b3 intent (maxDepth + 1) d dest
    Traced.act fun w => (w.stats, w)

end ObjectStore

section Confinement

/-- A single component of a path that names an entry of the directory it stands in. -/
def PlainName (n : String) : Prop :=
  n ≠ "" ∧ n.utf8ByteSize ≤ nameMax ∧ '/' ∉ n.toList ∧ '\x00' ∉ n.toList ∧ n ≠ "." ∧ n ≠ ".."

/-- All that happens is at or below `dest`, in directories that were created before. No path is
created twice, and none leads through a symlink or to one that is there already. -/
structure Confined (dest : Path) (trace : List FsEvent) : Prop where
  inside : ∀ e ∈ trace, ∃ names, e.path = dest ++ names ∧ ∀ n ∈ names, PlainName n
  parents : Runs.Throughout (fun before e => ∀ p, dest <+: p → p <+: e.path → p ≠ e.path →
    .createDir p (.ok ()) ∈ before) trace
  once : ((trace.filter FsEvent.creates).map FsEvent.path).Nodup
  undiverted : Runs.Throughout (fun before e => ∀ target p result,
    .symlink target p result ∈ before → ¬p <+: e.path) trace

end Confinement

end Jetrun
