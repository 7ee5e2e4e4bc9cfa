import Jetrun.Proofs.FileTree
import Jetrun.Proofs.Gc
import Jetrun.Proofs.Storing

/-!
# A collection on a machine

The mark loop reads objects and changes nothing. As long as none of its calls fails, it is the loop
over what the objects refer to. The sweep only removes files in the fan-out directories whose names
are digests that were not marked, whatever fails.
-/

namespace Jetrun

open Traced Volumes Volumes.Volume

namespace Storing

open ObjectStore Machine

variable {b3 : Blake3} {st : ObjectStore} {N : Digest → List UInt8 → Prop}
  {ok : StoreEvent → Prop} {w : Link.Session Machine} {h : List StoreEvent} {m₀ : Machine}
  {h₀ : List StoreEvent} {live : Finset Digest} {now minAge : ℕ}

/-- A file in a fan-out directory that is named by a digest which was not marked. -/
def Garbage (st : ObjectStore) (live : Finset Digest) (p : Path) : Prop :=
  ∃ fan file d, p = st.objects ++ [fan, file] ∧ fileDigest p = some d ∧ d ∉ live

section Sweep

/-- Some garbage may be gone, and nothing else happened. -/
structure Sweeping (st : ObjectStore) (live : Finset Digest) (m₀ : Machine) (h₀ : List StoreEvent)
    (w : Link.Session Machine) (h : List StoreEvent) : Prop where
  continues : Continues m₀ w.os
  pruned : Pruned (Garbage st live) m₀.volume w.os.volume
  silent : h = h₀

namespace Sweeping

theorem start : Sweeping st live w.os h w h := ⟨.refl _, .refl _, rfl⟩

theorem calls (hs : Sweeping st live m₀ h₀ w h) :
    Sweeping st live m₀ h₀ { w with os := w.os.after w.os.volume } h :=
  ⟨hs.continues.after _, hs.pruned, hs.silent⟩

theorem erase (hs : Sweeping st live m₀ h₀ w h) {p : Path} (hp : w.os.volume.isDir p = false)
    (hgone : Garbage st live p) :
    Sweeping st live m₀ h₀ { w with os := w.os.after (w.os.volume.erase p hp) } h :=
  ⟨hs.continues.after _, hs.pruned.trans (.erase hp hgone), hs.silent⟩

end Sweeping

/-- What a part of the sweep comes to. -/
abbrev Sweeps (st : ObjectStore) (live : Finset Digest) (m₀ : Machine) (h₀ : List StoreEvent)
    (_ : Except Stop GcStats) : Link.Session Machine → List StoreEvent → Prop :=
  Sweeping st live m₀ h₀

theorem sweepEntry_leads {fan : String} {stats : GcStats} (hs : Sweeping st live m₀ h₀ w h)
    (entry : Listed) :
    Leads ok (sweepEntry live now minAge (st.objects ++ [fan]) stats entry)
      (Sweeps st live m₀ h₀) w h := by
  refine leads_call_bind (acts_query_any fun r => ?_)
  refine leads_check_bind (fun _ _ => ?_) fun _ _ => hs.calls
  rcases entry with text | s
  · simp only []
    rcases hd : fileDigest (st.objects ++ [fan] ++ [text]) with _ | d
    · exact leads_pure hs.calls
    simp only []
    split_ifs with hlive
    · exact leads_pure hs.calls
    refine leads_call_bind (acts_query_any fun r => ?_)
    rcases r with e | stat
    · exact leads_pure hs.calls.calls
    simp only []
    split_ifs with hyoung
    · exact leads_pure hs.calls.calls
    refine leads_call_bind (acts_removeFile (fun e _ => ?_) fun hp => ?_)
    · cases e with
      | notFound => exact leads_pure hs.calls.calls.calls
      | _ => exact leads_fail hs.calls.calls.calls
    · refine leads_pure (hs.calls.calls.erase hp ?_)
      rw [List.append_assoc] at hd ⊢
      exact ⟨fan, text, d, rfl, hd, hlive⟩
  · exact leads_pure hs.calls

theorem sweepFan_leads {stats : GcStats} (hs : Sweeping st live m₀ h₀ w h) (fan : Listed) :
    Leads ok (sweepFan st live now minAge stats fan) (Sweeps st live m₀ h₀) w h := by
  refine leads_call_bind (acts_query_any fun r => ?_)
  refine leads_check_bind (fun _ _ => ?_) fun _ _ => hs.calls
  rcases fan with text | s
  · refine leads_call_bind (acts_query_any fun r => ?_)
    rcases r with e | stat
    · exact leads_pure hs.calls.calls
    simp only []
    split_ifs with hdir
    · exact leads_pure hs.calls.calls
    refine leads_call_bind (acts_query_any fun r => ?_)
    refine leads_check_bind (fun entries _ => ?_) fun _ _ => hs.calls.calls.calls
    refine leads_bind (leads_foldlM (I := fun _ _ => Sweeping st live m₀ h₀)
      (fun entry _ stats w h hI => (sweepEntry_leads hI entry).mono fun r w' h' hr => ?_)
      (fun stats w h hI => ?_) entries stats _ _ hs.calls.calls.calls)
    · rcases r with e | stats'
      · exact hr
      · exact hr
    · refine leads_call_bind (acts_query_any fun r => ?_)
      exact leads_check_bind (fun _ _ => leads_pure hI.calls) fun _ _ => hI.calls
  · exact leads_pure hs.calls

theorem sweep_leads (hs : Sweeping st live m₀ h₀ w h) :
    Leads ok (sweep st live minAge) (Sweeps st live m₀ h₀) w h := by
  refine leads_call_bind ?_
  show Leads ok _ _ w h
  refine leads_call_bind (acts_query_any fun r => ?_)
  refine leads_check_bind (fun fans _ => ?_) fun _ _ => hs.calls
  refine leads_bind (leads_foldlM (I := fun _ _ => Sweeping st live m₀ h₀)
    (fun fan _ stats w h hI => (sweepFan_leads hI fan).mono fun r w' h' hr => ?_)
    (fun stats w h hI => ?_) fans _ _ _ hs.calls)
  · rcases r with e | stats'
    · exact hr
    · exact hr
  · refine leads_call_bind (acts_query_any fun r => ?_)
    exact leads_check_bind (fun _ _ => leads_pure hI.calls) fun _ _ => hI.calls

end Sweep

section Mark

variable (b3 st)

/-- What the object of a digest refers to, if it can be opened. -/
def refsAt (v : Volume String) : Marking.Refs Digest := fun d => refsOf (treeAt b3 st v d)

/-- What the mark loop from `s` comes to. -/
structure Marked (s : Marking.State Digest) (m₀ : Machine) (h₀ : List StoreEvent)
    (r : Except Stop (Finset Digest)) (w : Link.Session Machine) (h : List StoreEvent) : Prop where
  continues : Continues m₀ w.os
  volume : w.os.volume = m₀.volume
  silent : h = h₀
  later : m₀.clock ≤ w.os.clock
  live : ∀ live, r = .ok live → Steady m₀ w.os →
    ∃ n, Marking.markLoop (refsAt b3 st m₀.volume) n s = ⟨live, []⟩

variable {b3 st}

theorem mark_leads : ∀ (turns : ℕ) (s : Marking.State Digest) (w : Link.Session Machine)
    (h : List StoreEvent), Leads ok (mark b3 st turns s) (Marked b3 st s w.os h) w h := by
  intro turns
  induction turns with
  | zero =>
    rintro ⟨live, _ | ⟨d, queue⟩⟩ w h
    · exact leads_pure ⟨.refl _, rfl, rfl, le_refl _, fun _ hlive _ => ⟨0, by cases hlive; rfl⟩⟩
    · exact leads_ofExcept ⟨.refl _, rfl, rfl, le_refl _, fun _ hlive => by cases hlive⟩
  | succ turns ih =>
    rintro ⟨live, _ | ⟨d, queue⟩⟩ w h
    · exact leads_pure ⟨.refl _, rfl, rfl, le_refl _, fun _ hlive _ => ⟨0, by cases hlive; rfl⟩⟩
    unfold mark
    split_ifs with hd
    · refine (ih ⟨live, queue⟩ w h).mono fun r w' h' hm => ?_
      refine ⟨hm.continues, hm.volume, hm.silent, hm.later, fun live' hr hsteady => ?_⟩
      obtain ⟨n, hn⟩ := hm.live live' hr hsteady
      refine ⟨n + 1, ?_⟩
      rw [Marking.markLoop_succ (by simp), Marking.markStep_skip _ hd, hn]
    · have hnext : ∀ tree, (w.os.moment.fault = none → refsOf tree = refsAt b3 st w.os.volume d) →
          Leads ok (mark b3 st turns (Marking.markStep (fun _ => refsOf tree) ⟨live, d :: queue⟩))
            (Marked b3 st ⟨live, d :: queue⟩ w.os h) { w with os := w.os.after w.os.volume } h := by
        intro tree htree
        refine (ih _ _ h).mono fun r w' h' hm => ?_
        refine ⟨((Continues.refl w.os).after _).trans hm.continues, hm.volume, hm.silent,
          Nat.le_of_succ_le hm.later, fun live' hr hsteady => ?_⟩
        have hrefs := htree (hsteady _ (le_refl _) hm.later)
        obtain ⟨n, hn⟩ := hm.live live' hr fun k hk => hsteady k (Nat.le_of_succ_le hk)
        rw [Marking.markStep_congr hrefs] at hn
        exact ⟨n + 1, (Marking.markLoop_succ (by simp) n).trans hn⟩
      refine leads_bind (leads_call_bind (acts_query_scripted (fun e hf => ?_) fun hf => ?_))
      · refine leads_pure (hnext _ fun hnone => ?_)
        rw [hf] at hnone
        cases hnone
      · exact leads_pure (hnext _ fun _ => rfl)

end Mark

section Whole

variable {v : Volume String} {roots : List Digest} {turns : ℕ}

/-- What no staging file and no fan-out directory is. -/
theorem Garbage.deep {p : Path} (h : Garbage st live p) :
    ∃ fan file, p = st.root ++ ["objects", fan, file] := by
  obtain ⟨fan, file, d, rfl, -⟩ := h
  refine ⟨fan, file, ?_⟩
  rw [st.root_push_eq.1]
  simp

theorem garbage_objectPath {d : Digest} : Garbage st live (st.objectPath d) → d ∉ live := by
  rintro ⟨fan, file, d', -, hd, hlive⟩
  rw [fileDigest_objectPath, Option.some.injEq] at hd
  exact hd ▸ hlive

/-- A store without its garbage is sound. -/
theorem Sound.pruned {v' : Volume String} (hs : Sound st N v)
    (hp : Pruned (Garbage st live) v v') : Sound st N v' := by
  have hdir : ∀ name, v'.isDir (st.root ++ [name]) = v.isDir (st.root ++ [name]) := by
    intro name
    refine isDir_congr (hp.find_eq fun hg => ?_)
    obtain ⟨fan, file, heq⟩ := hg.deep
    simp at heq
  have htmp := hs.tmp_dir
  have hobjects := hs.objects_dir
  rw [st.root_push_eq.2, ← hdir, ← st.root_push_eq.2] at htmp
  rw [st.root_push_eq.1, ← hdir, ← st.root_push_eq.1] at hobjects
  refine ⟨htmp, hobjects, fun d e he => hs.fanout d e (hp.of_find he), fun d e he => ?_,
    fun d e he => hs.staged d e (hp.of_find he), fun d i hi q hq => ?_⟩
  · rw [hp.inode]
    exact hs.object d e (hp.of_find he)
  · exact hs.staged_own d i (hp.of_find hi) q (hp.of_find hq)

variable (b3 st turns roots minAge) in
/-- `gc` as an operation of a store. -/
theorem gc_ends : ∃ live, Sweeping st live w.os [] (gc b3 st turns roots minAge w).world
      (gc b3 st turns roots minAge w).trace ∧
    ∀ stats, (gc b3 st turns roots minAge w).result = .ok stats →
      Steady w.os (mark b3 st turns ⟨∅, roots.reverse⟩ w).world.os →
      ∃ n, Marking.markLoop (refsAt b3 st w.os.volume) n ⟨∅, roots.reverse⟩ = ⟨live, []⟩ := by
  have hgo : Leads (fun _ => True) (gc b3 st turns roots minAge) (fun r w' h' =>
      ∃ live, Sweeping st live w.os [] w' h' ∧
        ∀ stats, r = .ok stats → Steady w.os (mark b3 st turns ⟨∅, roots.reverse⟩ w).world.os →
          ∃ n, Marking.markLoop (refsAt b3 st w.os.volume) n ⟨∅, roots.reverse⟩ = ⟨live, []⟩) w [] := by
    refine leads_bind fun hok => ?_
    have hm : Marked b3 st ⟨∅, roots.reverse⟩ w.os [] _ _ _ :=
      mark_leads turns ⟨∅, roots.reverse⟩ w [] hok
    rcases hr : (mark b3 st turns ⟨∅, roots.reverse⟩ w).result with e | live
    · refine ⟨∅, ⟨hm.continues, ?_, hm.silent⟩, fun _ h => by cases h⟩
      rw [hm.volume]
      exact .refl _
    · have hs : Sweeping st live w.os [] (mark b3 st turns ⟨∅, roots.reverse⟩ w).world
          ([] ++ (mark b3 st turns ⟨∅, roots.reverse⟩ w).trace) := by
        refine ⟨hm.continues, ?_, hm.silent⟩
        rw [hm.volume]
        exact .refl _
      exact (sweep_leads hs).mono fun r w' h' hsweep =>
        ⟨live, hsweep, fun _ _ hsteady => hm.live live hr hsteady⟩
  exact hgo fun _ _ => trivial

end Whole

end Storing

end Jetrun
