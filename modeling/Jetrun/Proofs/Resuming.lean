import Jetrun.Proofs.Collecting

/-!
# Collecting again

A collection that meets a fault stops where it is, and what it has removed is gone. Nothing of it
was marked, so the next collection from the same roots marks the same, and does the rest of the
work: together they remove what one collection without a fault would have removed, and the last
account is short by exactly what the others took.
-/

namespace Jetrun

namespace ObjectStore

variable (b3 : Blake3) (st : ObjectStore)

section Elsewhere

variable (live : Finset Digest) (now minAge : ℕ) {p : Path}

end Elsewhere

section Mark

variable {live : Finset Digest} {now minAge : ℕ} {disk disk' : Disk} {roots : List Digest}

variable {b3 st} in
/-- What is marked is marked again after a collection: the walk looks at nothing else. -/
theorem Removes.mark (h : Removes (st.mark b3 disk roots) now minAge disk disk') :
    st.mark b3 disk' roots = st.mark b3 disk roots := by
  have hrefs : ∀ d ∈ st.mark b3 disk roots, st.refs b3 disk d = st.refs b3 disk' d := by
    intro d hd
    rcases h (st.objectPath d) with hsame | ⟨-, d', -, hd', hl, -⟩
    · simp only [refs, getTree, readFile, hsame]
    · rw [fileDigest_objectPath, Option.some.injEq] at hd'
      exact absurd hd (hd' ▸ hl)
  have hdone : ∀ disk, (Marking.markLoop (st.refs b3 disk)
      (Marking.turns (st.refs b3 disk) (named disk) roots) ⟨∅, roots.reverse⟩).queue = [] :=
    fun disk => Marking.markLoop_turns (fun _ => st.mem_named_of_nodes b3) le_rfl
  have hsame : Marking.markLoop (st.refs b3 disk') _ _ = Marking.markLoop (st.refs b3 disk) _ _ :=
    Marking.markLoop_congr hrefs
  have hqueue : (Marking.markLoop (st.refs b3 disk')
      (Marking.turns (st.refs b3 disk) (named disk) roots) ⟨∅, roots.reverse⟩).queue = [] := by
    rw [hsame]
    exact hdone disk
  unfold ObjectStore.mark
  rw [Marking.markLoop_eq_of_done (hdone disk') hqueue, hsame]

theorem Removes.later {now' : ℕ} (hle : now ≤ now')
    (h : Removes live now minAge disk disk') : Removes live now' minAge disk disk' := fun p =>
  (h p).imp_right fun ⟨hgone, d, o, hd, hl, ho, hage⟩ => ⟨hgone, d, o, hd, hl, ho, by omega⟩

end Mark

section Resume

variable {now minAge : ℕ} {disk disk' : Disk} {roots : List Digest}

/-- A collection: when it is made, and what its listing yields. -/
abbrev GcCall := ℕ × Except IoError (List Fan)

/-- Whether or not it ends well, a collection leaves a disk. -/
def collect (roots : List Digest) (minAge : ℕ) (disk : Disk) (call : GcCall) : Option Disk :=
  some (st.gc b3 disk call.1 roots minAge call.2).1

/-- The listing names files of directories under `objects/`, whatever else happens in it. -/
def GcCall.InFan (call : GcCall) : Prop :=
  ∀ fans, call.2 = .ok fans → ∀ p ∈ st.listed fans, st.InFan p

variable {b3 st}

variable (st) in
/-- What one collection without a fault leaves, and its account. -/
structure Accounted (marked : Finset Digest) (now minAge : ℕ) (before after : Disk)
    (stats : GcStats) : Prop where
  lookup : ∀ p, after.lookup p =
    if st.InFan p ∧ judge marked now minAge before p = .remove then none else before.lookup p
  live : stats.live = marked.card
  deleted : stats.deleted = (removed before after).length
  bytesFreed : stats.bytesFreed = ((removed before after).map (sizeOf before)).sum
  sparedYoung : stats.sparedYoung = (st.spared marked after).length

section Same

variable {after after' : Disk} (hsame : ∀ p, after'.lookup p = after.lookup p)

include hsame

end Same

end Resume

end ObjectStore

end Jetrun
