import Mathlib.Data.List.Basic
import Mathlib.Logic.Function.Basic
import Mathlib.Tactic.SplitIfs

/-!
# Files as names of inodes

A file system maps paths to inodes, and an inode holds bytes and a mode. A descriptor is an inode
and an offset: it stays on its inode when the name goes elsewhere. Opening with truncation empties
the inode a name has already, a rename moves a name in one step, and a write past the end fills the
gap with zeros. An operation that the system refuses is `none`.
-/

namespace Inodes

structure Inode where
  content : List UInt8
  mode : ℕ
deriving DecidableEq

structure Fs (π : Type*) where
  inode : ℕ → Inode
  /-- The number the next new inode gets. -/
  next : ℕ
  file : π → Option ℕ
  dir : π → Bool

/-- The owner may write. -/
def ownerWrite : ℕ := 0o200

def Inode.writable (i : Inode) : Bool := i.mode &&& ownerWrite ≠ 0

/-- What `content` becomes when `bytes` are written at `offset`. -/
def overwrite (content : List UInt8) (offset : ℕ) (bytes : List UInt8) : List UInt8 :=
  let padded := content ++ List.replicate (offset - content.length) 0
  padded.take offset ++ bytes ++ padded.drop (offset + bytes.length)

variable {π : Type*} [DecidableEq π]

namespace Fs

def setInode (fs : Fs π) (i : ℕ) (inode : Inode) : Fs π :=
  { fs with inode := Function.update fs.inode i inode }

def setFile (fs : Fs π) (p : π) (i : Option ℕ) : Fs π :=
  { fs with file := Function.update fs.file p i }

/-- A new inode under a new name. -/
def create (fs : Fs π) (p : π) (inode : Inode) : Fs π :=
  { (fs.setInode fs.next inode).setFile p (some fs.next) with next := fs.next + 1 }

/-- Open for writing, creating the file or emptying the one that is there. -/
def openTruncate (fs : Fs π) (privileged : Bool) (createMode : ℕ) (p : π) : Option (Fs π × ℕ) :=
  match fs.file p with
  | some i =>
    if privileged || (fs.inode i).writable then
      some (fs.setInode i ⟨[], (fs.inode i).mode⟩, i)
    else none
  | none => some (fs.create p ⟨[], createMode⟩, fs.next)

/-- Write through a descriptor. -/
def write (fs : Fs π) (i offset : ℕ) (bytes : List UInt8) : Fs π :=
  fs.setInode i ⟨overwrite (fs.inode i).content offset bytes, (fs.inode i).mode⟩

def setMode (fs : Fs π) (p : π) (mode : ℕ) : Option (Fs π) :=
  (fs.file p).map fun i => fs.setInode i ⟨(fs.inode i).content, mode⟩

def mkdir (fs : Fs π) (p : π) : Fs π := { fs with dir := Function.update fs.dir p true }

def rename (fs : Fs π) (p q : π) : Option (Fs π) :=
  (fs.file p).map fun i => (fs.setFile p none).setFile q (some i)

def unlink (fs : Fs π) (p : π) : Option (Fs π) := (fs.file p).map fun _ => fs.setFile p none

end Fs

omit [DecidableEq π] in
/-- Writing on where the content ends. -/
theorem overwrite_end (content bytes : List UInt8) :
    overwrite content content.length bytes = content ++ bytes := by
  simp [overwrite]

/-- A name that is `own` shares its inode with no other name, and every inode that has a name has
been handed out. -/
structure Separate (own : π → Prop) (fs : Fs π) : Prop where
  sole : ∀ {p q i}, own p → fs.file p = some i → fs.file q = some i → q = p
  lt_next : ∀ {p i}, fs.file p = some i → i < fs.next

namespace Separate

variable {own : π → Prop} {fs : Fs π}

omit [DecidableEq π] in
theorem of_same {fs' : Fs π} (h : Separate own fs) (hf : fs'.file = fs.file)
    (hn : fs.next ≤ fs'.next) : Separate own fs' where
  sole ho hp hq := h.sole ho (hf ▸ hp) (hf ▸ hq)
  lt_next hp := Nat.lt_of_lt_of_le (h.lt_next (hf ▸ hp)) hn

omit [DecidableEq π] in
theorem setInode (h : Separate own fs) (i : ℕ) (inode : Inode) :
    Separate own (fs.setInode i inode) :=
  ⟨h.sole, h.lt_next⟩

theorem create (h : Separate own fs) (p : π) (inode : Inode) :
    Separate own (fs.create p inode) where
  sole {q r i} ho hq hr := by
    simp only [Fs.create, Fs.setFile, Fs.setInode, Function.update_apply] at hq hr
    split_ifs at hq hr with h1 h2 h2
    · rw [h1, h2]
    · exact absurd (h.lt_next hr) (by simp [← Option.some.inj hq])
    · exact absurd (h.lt_next hq) (by simp [← Option.some.inj hr])
    · exact h.sole ho hq hr
  lt_next {q i} hq := by
    simp only [Fs.create, Fs.setFile, Fs.setInode, Function.update_apply] at hq ⊢
    split_ifs at hq
    · simp [← Option.some.inj hq]
    · exact Nat.lt_succ_of_lt (h.lt_next hq)

theorem unlink (h : Separate own fs) (p : π) : Separate own (fs.setFile p none) where
  sole {q r i} ho hq hr := by
    simp only [Fs.setFile, Function.update_apply] at hq hr
    split_ifs at hq hr
    exact h.sole ho hq hr
  lt_next {q i} hq := by
    simp only [Fs.setFile, Function.update_apply] at hq
    split_ifs at hq
    exact h.lt_next hq

theorem rename (h : Separate own fs) {p q : π} {i : ℕ} (hown : own p) (hq : ¬ own q)
    (hp : fs.file p = some i) : Separate own ((fs.setFile p none).setFile q (some i)) where
  sole {r t j} ho hr ht := by
    simp only [Fs.setFile, Function.update_apply] at hr ht
    split_ifs at hr ht with h1 h2 h3 h4 h5
    · exact absurd (h1 ▸ ho) hq
    · exact absurd (h1 ▸ ho) hq
    · exact absurd (h.sole hown hp (Option.some.inj ht ▸ hr)) h4
    · exact h.sole ho hr ht
  lt_next {r j} hr := by
    simp only [Fs.setFile, Function.update_apply] at hr
    split_ifs at hr with h1 h2
    · exact Option.some.inj hr ▸ h.lt_next hp
    · exact h.lt_next hr

end Separate

end Inodes
