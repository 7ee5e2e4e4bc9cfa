import Mathlib.Data.UInt
import Jetrun.Storing

/-!
# Directory trees, and what a store holds of them

A directory tree is a function of the path from its root. A manifest describes one if it has a node
for each entry and nothing else; which order the entries are listed in makes no difference to it.
The other way round, a digest expands to the entries of all the manifests below it, and a tree
reflects them.
-/

namespace Jetrun

open Volumes

/-- What a tree shows of an entry. Of a file's mode only the owner-execute bit counts. -/
inductive Seen
  | file (content : List UInt8) (executable : Bool)
  | dir (odd : List String)
  | symlink (target : List UInt8)
  | special
deriving DecidableEq

namespace Seen

def isFile : Seen → Bool
  | file .. => true
  | _ => false

def isDir : Seen → Bool
  | dir _ => true
  | _ => false

def isSymlink : Seen → Bool
  | symlink _ => true
  | _ => false

def size : Seen → ℕ
  | file content _ => content.length
  | _ => 0

end Seen

/-- What stands where, by the path from the root of the tree. -/
abbrev FileTree := Path → Option Seen

namespace FileTree

/-- The tree below a name. -/
def sub (f : FileTree) (n : String) : FileTree := fun rel => f (n :: rel)

/-- Whatever stands in a tree stands in a directory. -/
def Rooted (f : FileTree) : Prop :=
  ∀ rel n, f (rel ++ [n]) ≠ none → ∃ odd, f rel = some (.dir odd)

/-- What a manifest has room for, in a tree that can be written out again. -/
structure Portable (f : FileTree) : Prop where
  depth : ∀ rel odd, f rel = some (.dir odd) → rel.length ≤ maxDepth
  target : ∀ rel target, f rel = some (.symlink target) → target ≠ [] ∧ target.length < 2 ^ 16
  entries : ∀ rel ns, List.Nodup ns → (∀ n ∈ ns, f (rel ++ [n]) ≠ none) → ns.length < 2 ^ 32

/-- Symlinks as an operating system has them: not empty, and no longer than a path may be. -/
def Linkable (f : FileTree) : Prop :=
  ∀ rel target, f rel = some (.symlink target) → target ≠ [] ∧ target.length < 2 ^ 16

/-- What is no directory, for a tree. -/
def leaf (s : Seen) : FileTree := fun rel => if rel = [] then some s else none

/-- A directory of these trees. -/
def dir (entries : List (String × FileTree)) : FileTree
  | [] => some (.dir [])
  | n :: rel => (entries.lookup n).bind fun f => f rel

end FileTree

def seenAs (v : Volume String) : Entry String → Seen
  | .file i => .file (v.inode i).content ((v.inode i).mode &&& 0o100 ≠ 0)
  | .dir odd => .dir odd
  | .symlink target => .symlink target
  | .special => .special

/-- The tree that stands at a path of a volume. -/
def view (v : Volume String) (dir : Path) : FileTree := fun rel =>
  (v.find (dir ++ rel)).map (seenAs v)

section Manifests

variable (b3 : Blake3)

/-- The node for what stands at the root of a tree. -/
def NodeFor (describes : FileTree → Tree → Prop) (f : FileTree) : Node → Prop
  | .file d size executable => ∃ content, f [] = some (.file content executable) ∧
    d = blobDigest b3 content ∧ size = UInt64.ofNat content.length
  | .dir d => ∃ t, describes f t ∧ d = t.digest b3
  | .symlink target => f [] = some (.symlink (Utf8.encode target))

/-- The manifest of a directory tree that is at most so many levels deep. -/
def Describes : ℕ → FileTree → Tree → Prop
  | 0, _, _ => False
  | levels + 1, f, t => f [] = some (.dir []) ∧
    (∀ n, f [n] ≠ none → ∃ e ∈ t.iter, e.1.text = n) ∧
    ∀ e ∈ t.iter, NodeFor b3 (Describes levels) (f.sub e.1.text) e.2

/-- An object that a tree is made of: the content of a file, or the manifest of a directory. -/
def Part (f : FileTree) (r : Request) : Prop :=
  ∃ rel : Path, (∃ content x, f rel = some (.file content x) ∧ r = .bytes content) ∨
    ∃ levels t, Describes b3 levels (fun q => f (rel ++ q)) t ∧ r = .tree t

end Manifests

namespace ObjectStore

variable (b3 : Blake3) (st : ObjectStore) (v : Volume String)

/-- The tree that an object decodes to. -/
def treeAt (d : Digest) : Except CasError Tree :=
  st.treeOf b3 d (Machine.readable v (st.objectPath d))

def expandEntry (into : Digest → Except CasError (List (Path × Node))) (e : EntryName × Node) :
    Except CasError (List (Path × Node)) :=
  match e.2 with
  | .file d _ _ =>
    if v.find (st.objectPath d) = none then .error (.missing d) else .ok [([e.1.text], e.2)]
  | .dir d =>
    (into d).map fun l => ([e.1.text], e.2) :: l.map fun x => (e.1.text :: x.1, x.2)
  | .symlink _ => .ok [([e.1.text], e.2)]

def expandEntries (into : Digest → Except CasError (List (Path × Node))) :
    List (EntryName × Node) → Except CasError (List (Path × Node))
  | [] => .ok []
  | e :: es => do
    let l ← expandEntry st v into e
    let ls ← expandEntries into es
    pure (l ++ ls)

/-- Every entry below a digest, at most so many levels down, or why there is no such tree. -/
def expand : ℕ → Digest → Except CasError (List (Path × Node))
  | 0, _ => .error (.treeTooDeep maxDepth)
  | levels + 1, d => do
    let t ← treeAt b3 st v d
    expandEntries st v (expand levels) t.iter

/-- What a node shows of itself once it is written out. -/
def shown : Node → Option Seen
  | .file d _ executable =>
    (Machine.readable v (st.objectPath d)).toOption.map fun c => .file c executable
  | .dir _ => some (.dir [])
  | .symlink target => some (.symlink (Utf8.encode target))

/-- A tree of just these entries. -/
structure Reflects (l : List (Path × Node)) (f : FileTree) : Prop where
  root : f [] = some (.dir [])
  entry : ∀ e ∈ l, f e.1 = shown st v e.2
  only : ∀ rel, f rel ≠ none → rel = [] ∨ rel ∈ l.map Prod.fst

section Unfolding

def unfoldNode (into : Digest → Option FileTree) : Node → Option FileTree
  | .file d _ executable =>
    (Machine.readable v (st.objectPath d)).toOption.map fun c => .leaf (.file c executable)
  | .dir d => into d
  | .symlink target => some (.leaf (.symlink (Utf8.encode target)))

def unfoldEntries (into : Digest → Option FileTree) :
    List (EntryName × Node) → Option (List (String × FileTree))
  | [] => some []
  | e :: es => do
    let f ← unfoldNode st v into e.2
    let fs ← unfoldEntries into es
    pure ((e.1.text, f) :: fs)

/-- The directory tree that a digest stands for, at most so many levels down: its manifest decodes,
its files are the bytes of their objects, and its directories are unfolded in turn. -/
def unfold : ℕ → Digest → Option FileTree
  | 0, _ => none
  | levels + 1, d => do
    let t ← (treeAt b3 st v d).toOption
    let entries ← unfoldEntries st v (unfold levels) t.iter
    pure (.dir entries)

end Unfolding

end ObjectStore

section Counts

namespace Node

def isFile : Node → Bool
  | file .. => true
  | _ => false

def isDir : Node → Bool
  | dir _ => true
  | _ => false

def isSymlink : Node → Bool
  | symlink _ => true
  | _ => false

def declaredSize : Node → UInt64
  | file _ size _ => size
  | _ => 0

end Node

/-- The counters after these nodes were written out. -/
structure Counted (s : MaterializeStats) (l : List Node) (s' : MaterializeStats) : Prop where
  files : s'.files = s.files + UInt64.ofNat (l.countP Node.isFile)
  dirs : s'.dirs = s.dirs + UInt64.ofNat (l.countP Node.isDir)
  symlinks : s'.symlinks = s.symlinks + UInt64.ofNat (l.countP Node.isSymlink)
  bytes : s'.bytes = s.bytes + (l.map Node.declaredSize).sum

end Counts

end Jetrun
