import Jetrun.Ledger

/-!
# Users beside a store

Users work on what they give to a store and on what they get from it, while nothing else runs: they
write to a file in place, or change its mode. A path names an inode, so what a write reaches may
have other names.
-/

namespace Jetrun

open Volumes Traced

/-- What a store is asked to do, and what a user does to a file. -/
inductive Deed
  | putFile (path : Path)
  | ingestDir (stack : ℕ) (dir : Path)
  | materializeTree (intent : Intent) (d : Digest) (dest : Path)
  | write (path : Path) (content : List UInt8) (now : ℕ)
  | chmod (path : Path) (mode : ℕ)

namespace Deed

/-- Change the inode that a path names, if there is a file. -/
def edit (v : Volume String) (path : Path) (f : Inode → Inode) : Volume String :=
  match v.find path with
  | some (.file i) => v.setInode i (f (v.inode i))
  | _ => v

/-- The deed in the ledger of the store. -/
def op (v : Volume String) : Deed → Op
  | putFile path => .putFile path
  | ingestDir stack dir => .ingestDir stack dir
  | materializeTree intent d dest => .materializeTree intent d dest
  | write path content now => .others (edit v path fun inode => ⟨content, inode.mode, now⟩)
  | chmod path mode => .others (edit v path fun inode => ⟨inode.content, mode, inode.modified⟩)

/-- The file that a user changes. -/
def edits : Deed → Option Path
  | write path .. => some path
  | chmod path _ => some path
  | _ => none

/-- A file that the store is given, by itself or in a directory. -/
def Gives (path : Path) : Deed → Prop
  | putFile p => p = path
  | ingestDir _ dir => dir <+: path
  | _ => False

instance (path : Path) : ∀ deed, Decidable (Gives path deed)
  | putFile p => inferInstanceAs (Decidable (p = path))
  | ingestDir _ dir => inferInstanceAs (Decidable (dir <+: path))
  | materializeTree .. => .isFalse id
  | write .. => .isFalse id
  | chmod .. => .isFalse id

end Deed

/-- A store in use, what it was asked to do and what users did, and what it has placed. -/
structure Workspaces where
  ledger : Ledger
  done : List Deed
  placed : List FsEvent

namespace Workspaces

variable (b3 : Blake3) (st : ObjectStore)

def new (session : Link.Session Machine) : Workspaces := ⟨.new session, [], []⟩

def volume (s : Workspaces) : Volume String := s.ledger.volume

def events (s : Workspaces) : Deed → List FsEvent
  | .materializeTree intent d dest =>
    (st.materializeTree Machine.os b3 intent d dest ⟨s.ledger.session, .zero⟩).trace
  | _ => []

def after (s : Workspaces) (deed : Deed) : Workspaces where
  ledger := s.ledger.after b3 st (deed.op s.volume)
  done := s.done ++ [deed]
  placed := s.placed ++ s.events b3 st deed

def step (s : Workspaces) (deed : Deed) : Option Workspaces := some (s.after b3 st deed)

/-- The file was placed with an inode of its own: under `PrivateInode`, or as an executable one. -/
def Private (s : Workspaces) (path : Path) : Prop :=
  ∃ src mode, FsEvent.materialize src path .privateInode (.ok mode) ∈ s.placed

/-- Users change only files that the store was given and files that were placed with an inode of
their own. -/
def Polite (s : Workspaces) (deed : Deed) : Prop :=
  ∀ path ∈ deed.edits, (∃ earlier ∈ s.done, earlier.Gives path) ∨ s.Private path

/-- The object is there, with this content and this mode. -/
def Object (s : Workspaces) (d : Digest) (content : List UInt8) (mode : ℕ) : Prop :=
  ∃ i, s.volume.find (st.objectPath d) = some (.file i) ∧ (s.volume.inode i).content = content ∧
    (s.volume.inode i).mode = mode

instance (s : Workspaces) (d : Digest) (content : List UInt8) (mode : ℕ) :
    Decidable (s.Object st d content mode) :=
  match h : s.volume.find (st.objectPath d) with
  | some (.file i) =>
    decidable_of_iff ((s.volume.inode i).content = content ∧ (s.volume.inode i).mode = mode)
      ⟨fun hi => ⟨i, h, hi⟩, fun ⟨j, hj, hi⟩ => by
        rw [h, Option.some.injEq, Volumes.Entry.file.injEq] at hj
        exact hj ▸ hi⟩
  | none => .isFalse fun ⟨_, hi, _⟩ => by simp [h] at hi
  | some (.dir _) => .isFalse fun ⟨_, hi, _⟩ => by simp [h] at hi
  | some (.symlink _) => .isFalse fun ⟨_, hi, _⟩ => by simp [h] at hi
  | some .special => .isFalse fun ⟨_, hi, _⟩ => by simp [h] at hi

end Workspaces

end Jetrun
