import Jetrun.Store

/-!
# What a collection is to collect

A collection that meets no fault is judged by what stands under `objects/` before and after it:
which files are gone, how large they were, and what has stayed.
-/

namespace Jetrun

/-- Nothing fails in the directory, nor any call on one of its files. -/
def Fan.Calm : Fan → Prop
  | .failed _ => False
  | .other => True
  | .unreadable _ _ => False
  | .listed _ entries => ∀ e ∈ entries, ∃ name, e = .ok ⟨name, true, true, none⟩

def Fan.paths (objects : Path) : Fan → List Path
  | .listed name entries =>
    entries.filterMap fun e => e.toOption.map fun entry => (objects.push name).push entry.name
  | _ => []

namespace ObjectStore

/-- What the digests refer to that `getTree` answers with a tree. -/
def refsOfTrees (getTree : Digest → Option Tree) : Marking.Refs Digest := fun d =>
  (getTree d).map fun tree => (tree.blobDigests, tree.subtreeDigests)

variable (st : ObjectStore)

section Listing

/-- The file stands in a directory under `objects/`. -/
def InFan (p : Path) : Prop :=
  p.length = st.objects.length + 2 ∧ p.take st.objects.length = st.objects

instance : DecidablePred st.InFan := fun _ => inferInstanceAs (Decidable (_ ∧ _))

/-- The files that a listing names. -/
def listed (fans : List Fan) : List Path := fans.flatMap (Fan.paths st.objects)

/-- The listing is of what is on disk, and nothing fails in it. -/
structure Lists (disk : Disk) (fans : List Fan) : Prop where
  calm : ∀ fan ∈ fans, fan.Calm
  once : (st.listed fans).Nodup
  inFan : ∀ p ∈ st.listed fans, st.InFan p
  all : ∀ p ∈ disk.keys, st.InFan p → p ∈ st.listed fans

end Listing

section Outcome

/-- The files of `before` that are gone. -/
def removed (before after : Disk) : List Path := before.keys.filter (· ∉ after.keys)

def sizeOf (disk : Disk) (p : Path) : ℕ := ((disk.lookup p).map fun o => o.content.length).getD 0

/-- The objects that were not marked and are there all the same. -/
def spared (live : Finset Digest) (after : Disk) : List Path :=
  after.keys.filter fun p => st.InFan p ∧ (fileDigest p).any (· ∉ live)

variable (b3 : Blake3)

/-- A collection of what the roots do not reach and is at least `minAge` old, and an account of it.
-/
structure Collected (now : ℕ) (roots : List Digest) (minAge : ℕ) (before after : Disk)
    (stats : GcStats) : Prop where
  only : ∀ p ∈ after.keys, after.lookup p = before.lookup p
  old : ∀ p ∈ removed before after, ∃ d o, fileDigest p = some d ∧ before.lookup p = some o ∧
    minAge ≤ now - o.modified
  all : ∀ p d o, st.InFan p → fileDigest p = some d → after.lookup p = some o →
    now - o.modified < minAge ∨ (st.refs b3 before).Reach roots d
  live : stats.live = (st.mark b3 before roots).card
  deleted : stats.deleted = (removed before after).length
  bytesFreed : stats.bytesFreed = ((removed before after).map (sizeOf before)).sum
  sparedYoung : stats.sparedYoung = (st.spared (st.mark b3 before roots) after).length

end Outcome

end ObjectStore

end Jetrun
