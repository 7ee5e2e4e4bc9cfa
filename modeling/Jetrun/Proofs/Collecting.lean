import Mathlib.Data.Set.Finite.Basic
import Jetrun.Collecting
import Jetrun.Proofs.Gc

/-!
# A collection without faults

What the sweep does to a file depends on that file alone, so a listing without faults is swept path
by path (`sweepFans_calm`), and what is left and counted can be told from the disk before it
(`swept_foldl`). The mark loop marks only what the roots reach, so everything that has stayed is
young or reachable (`gc_collects`). That the loop ends does not need the store to be sound in any
way (`mark_ends`).
-/

namespace Jetrun

namespace ObjectStore

open Marking

variable (b3 : Blake3) (st : ObjectStore)

section Mark

variable {getTree : Digest → Option Tree}

/-- Whatever finitely many digests stand for, the mark loop ends, and it asks for none of them
twice. -/
theorem mark_ends (hfinite : {d | (getTree d).isSome}.Finite) (roots : List Digest) :
    (∃ n, (markLoop (refsOfTrees getTree) n ⟨∅, roots.reverse⟩).queue = []) ∧
      ∀ n, (opened (refsOfTrees getTree) n ⟨∅, roots.reverse⟩).Nodup := by
  refine ⟨?_, fun n => opened_nodup n _⟩
  have hdom : ∀ d, (refsOfTrees getTree).nodes d ≠ [] → d ∈ hfinite.toFinset.toList := by
    intro d hnodes
    rw [Finset.mem_toList, Set.Finite.mem_toFinset]
    by_contra hnone
    refine hnodes ((refsOfTrees getTree).nodes_of_none ?_)
    rw [refsOfTrees, Option.not_isSome_iff_eq_none.1 hnone, Option.map_none]
  exact ⟨_, markLoop_turns hdom le_rfl⟩

/-- A store of one tree, which holds itself. -/
def selfHolding (d : Digest) : Option Tree :=
  if d = sampleBlob then some (Tree.new.insert nameA (.dir sampleBlob)) else none

/-- The tree that holds itself is a root twice over. -/
theorem selfHolding_ends :
    (∃ n, (markLoop (refsOfTrees selfHolding) n ⟨∅, [sampleBlob, sampleBlob].reverse⟩).queue = []) ∧
      ∀ n, (opened (refsOfTrees selfHolding) n ⟨∅, [sampleBlob, sampleBlob].reverse⟩).Nodup := by
  refine mark_ends ((Set.finite_singleton sampleBlob).subset fun d hd => ?_)
    [sampleBlob, sampleBlob]
  by_contra hne
  have hnone : selfHolding d = none := if_neg hne
  rw [Set.mem_ofPred_eq, hnone] at hd
  exact absurd hd (by decide)

/-- The loop of a collection is the loop over what its `get_tree` answers. -/
theorem refs_eq (disk : Disk) :
    st.refs b3 disk = refsOfTrees fun d => (st.getTree b3 disk d).toOption := by
  funext d
  unfold refs refsOfTrees
  rcases h : st.getTree b3 disk d with e | tree
  · simp only [h]
    rfl
  · simp only [h]
    rfl

end Mark

section Sweep

variable {live : Finset Digest} {now minAge : ℕ}

inductive Verdict
  | leave
  | spare
  | remove
deriving DecidableEq

/-- What becomes of a file. -/
def judge (live : Finset Digest) (now minAge : ℕ) (disk : Disk) (p : Path) : Verdict :=
  match fileDigest p with
  | none => .leave
  | some d =>
    if d ∈ live then .leave
    else match disk.lookup p with
      | none => .leave
      | some o => if now - o.modified < minAge then .spare else .remove

def sweepPath (live : Finset Digest) (now minAge : ℕ) (s : Sweep) (p : Path) : Sweep :=
  match judge live now minAge s.disk p with
  | .leave => s
  | .spare => { s with stats.sparedYoung := s.stats.sparedYoung + 1 }
  | .remove =>
    { disk := s.disk.erase p
      stats := { s.stats with
        deleted := s.stats.deleted + 1
        bytesFreed := s.stats.bytesFreed + sizeOf s.disk p } }

theorem sweepEntry_calm (fanPath : Path) (name : String) (s : Sweep) :
    sweepEntry live now minAge fanPath ⟨name, true, true, none⟩ s =
      (sweepPath live now minAge s (fanPath.push name), none) := by
  unfold sweepEntry sweepPath judge
  rcases hd : fileDigest (fanPath.push name) with _ | d
  · simp only [hd]
  by_cases hl : d ∈ live
  · simp only [hd, if_pos hl]
  rcases ho : s.disk.lookup (fanPath.push name) with _ | o
  · simp only [hd, if_neg hl, if_true, ho]
  by_cases hage : now - o.modified < minAge
  · simp only [hd, if_neg hl, if_true, ho, if_pos hage]
  · simp only [hd, if_neg hl, if_true, ho, if_neg hage, sizeOf, Option.map_some, Option.getD_some]

theorem sweepEntries_calm (fanPath : Path) : ∀ {entries : List (Except IoError DirEntry)}
    (s : Sweep), (∀ e ∈ entries, ∃ name, e = .ok ⟨name, true, true, none⟩) →
      sweepEntries live now minAge fanPath entries s =
        ((entries.filterMap fun e => e.toOption.map fun entry => fanPath.push entry.name).foldl
          (sweepPath live now minAge) s, none)
  | [], s, _ => rfl
  | e :: entries, s, h => by
    obtain ⟨name, rfl⟩ := h e List.mem_cons_self
    rw [sweepEntries, sweepEntry_calm]
    exact sweepEntries_calm fanPath _ fun e he => h e (List.mem_cons_of_mem _ he)

/-- Where nothing fails, the files are swept one after the other. -/
theorem sweepFans_calm : ∀ {fans : List Fan} (s : Sweep), (∀ fan ∈ fans, fan.Calm) →
    st.sweepFans live now minAge fans s =
      ((st.listed fans).foldl (sweepPath live now minAge) s, none)
  | [], s, _ => rfl
  | fan :: fans, s, h => by
    have hfan := h fan List.mem_cons_self
    have hfans : ∀ f ∈ fans, f.Calm := fun f hf => h f (List.mem_cons_of_mem _ hf)
    cases fan with
    | failed => cases hfan
    | unreadable => cases hfan
    | other =>
      rw [sweepFans]
      exact sweepFans_calm s hfans
    | listed name entries =>
      rw [sweepFans, sweepEntries_calm _ s hfan, listed, List.flatMap_cons, List.foldl_append]
      exact sweepFans_calm _ hfans

theorem judge_congr {disk disk' : Disk} {p : Path} (h : disk.lookup p = disk'.lookup p) :
    judge live now minAge disk p = judge live now minAge disk' p := by
  simp only [judge, h]

/-- A turn of the sweep is about one file. -/
theorem sweepPath_lookup (s : Sweep) (p q : Path) :
    (sweepPath live now minAge s p).disk.lookup q =
      if q = p ∧ judge live now minAge s.disk p = .remove then none else s.disk.lookup q := by
  unfold sweepPath
  rcases judge live now minAge s.disk p
  · simp
  · simp
  · by_cases hq : q = p
    · subst hq
      simp [AList.lookup_erase]
    · simp [hq, AList.lookup_erase_ne hq]

/-- What the turn of `p` adds to the counters. -/
theorem sweepPath_stats (s : Sweep) (p : Path) :
    (sweepPath live now minAge s p).stats =
      { live := s.stats.live
        deleted := s.stats.deleted + if judge live now minAge s.disk p = .remove then 1 else 0
        bytesFreed := s.stats.bytesFreed +
          if judge live now minAge s.disk p = .remove then sizeOf s.disk p else 0
        sparedYoung := s.stats.sparedYoung +
          if judge live now minAge s.disk p = .spare then 1 else 0 } := by
  unfold sweepPath
  rcases judge live now minAge s.disk p <;> rfl

/-- What a sweep of the files `ps` has counted, and left. -/
structure Swept (live : Finset Digest) (now minAge : ℕ) (ps : List Path) (s s' : Sweep) : Prop where
  lookup : ∀ q, s'.disk.lookup q =
    if q ∈ ps ∧ judge live now minAge s.disk q = .remove then none else s.disk.lookup q
  same : s'.stats.live = s.stats.live
  deleted : s'.stats.deleted =
    s.stats.deleted + (ps.filter (judge live now minAge s.disk · = .remove)).length
  bytesFreed : s'.stats.bytesFreed = s.stats.bytesFreed +
    ((ps.filter (judge live now minAge s.disk · = .remove)).map (sizeOf s.disk)).sum
  sparedYoung : s'.stats.sparedYoung =
    s.stats.sparedYoung + (ps.filter (judge live now minAge s.disk · = .spare)).length

theorem swept_foldl : ∀ {ps : List Path} (s : Sweep), ps.Nodup →
    Swept live now minAge ps s (ps.foldl (sweepPath live now minAge) s)
  | [], s, _ => ⟨by simp, rfl, by simp, by simp, by simp⟩
  | p :: ps, s, hnodup => by
    rw [List.nodup_cons] at hnodup
    obtain ⟨hp, hnodup⟩ := hnodup
    -- the files behind `p` are not touched by its turn
    have hother : ∀ q ∈ ps, (sweepPath live now minAge s p).disk.lookup q = s.disk.lookup q := by
      intro q hq
      rw [sweepPath_lookup, if_neg]
      rintro ⟨rfl, -⟩
      exact hp hq
    have hjudge : ∀ q ∈ ps, judge live now minAge (sweepPath live now minAge s p).disk q
        = judge live now minAge s.disk q := fun q hq => judge_congr (hother q hq)
    have ih := swept_foldl (sweepPath live now minAge s p) hnodup
    rw [List.foldl_cons]
    have hcount : ∀ v : Verdict, ps.filter
        (judge live now minAge (sweepPath live now minAge s p).disk · = v)
        = ps.filter (judge live now minAge s.disk · = v) := fun v =>
      List.filter_congr fun q hq => by rw [hjudge q hq]
    refine ⟨fun q => ?_, ?_, ?_, ?_, ?_⟩
    · rw [ih.lookup]
      by_cases hq : q ∈ ps
      · simp only [hq, hjudge q hq, hother q hq, List.mem_cons, or_true, true_and]
      · rw [if_neg fun h => hq h.1, sweepPath_lookup]
        by_cases hqp : q = p
        · subst hqp
          simp only [List.mem_cons_self, true_and]
        · simp only [hq, hqp, List.mem_cons, or_self, false_and]
    · rw [ih.same, sweepPath_stats]
    · rw [ih.deleted, hcount, sweepPath_stats, List.filter_cons]
      simp only [decide_eq_true_eq]
      split_ifs
      · rw [List.length_cons]
        omega
      · omega
    · have hsize : ∀ q ∈ ps.filter (judge live now minAge s.disk · = .remove),
          sizeOf (sweepPath live now minAge s p).disk q = sizeOf s.disk q := fun q hq => by
        rw [sizeOf, hother q (List.mem_of_mem_filter hq), sizeOf]
      rw [ih.bytesFreed, hcount, List.map_congr_left hsize, sweepPath_stats, List.filter_cons]
      simp only [decide_eq_true_eq]
      split_ifs
      · rw [List.map_cons, List.sum_cons]
        omega
      · omega
    · rw [ih.sparedYoung, hcount, sweepPath_stats, List.filter_cons]
      simp only [decide_eq_true_eq]
      split_ifs
      · rw [List.length_cons]
        omega
      · omega

end Sweep

section Collect

variable {live : Finset Digest} {now minAge : ℕ} {disk disk' : Disk} {ps : List Path}

theorem judge_object {p : Path} {d : Digest} {o : Object} (hd : fileDigest p = some d)
    (ho : disk.lookup p = some o) : judge live now minAge disk p =
      if d ∈ live then .leave else if now - o.modified < minAge then .spare else .remove := by
  simp only [judge, hd, ho]

/-- Only an object that was not marked is spared or removed. -/
theorem object_of_judge {p : Path} (h : judge live now minAge disk p ≠ .leave) :
    ∃ d o, fileDigest p = some d ∧ disk.lookup p = some o ∧ d ∉ live := by
  rcases hd : fileDigest p with _ | d
  · simp [judge, hd] at h
  rcases ho : disk.lookup p with _ | o
  · simp [judge, hd, ho] at h
  · refine ⟨d, o, rfl, rfl, fun hl => h ?_⟩
    rw [judge_object hd ho, if_pos hl]

theorem judge_remove {p : Path} : judge live now minAge disk p = .remove ↔
    ∃ d o, fileDigest p = some d ∧ disk.lookup p = some o ∧ d ∉ live ∧
      minAge ≤ now - o.modified := by
  constructor
  · intro h
    have hne : judge live now minAge disk p ≠ .leave := by rw [h]; decide
    obtain ⟨d, o, hd, ho, hl⟩ := object_of_judge hne
    rw [judge_object hd ho, if_neg hl] at h
    split_ifs at h with hage
    exact ⟨d, o, hd, ho, hl, not_lt.1 hage⟩
  · rintro ⟨d, o, hd, ho, hl, hage⟩
    rw [judge_object hd ho, if_neg hl, if_neg (not_lt.2 hage)]

theorem judge_spare {p : Path} : judge live now minAge disk p = .spare ↔
    ∃ d o, fileDigest p = some d ∧ disk.lookup p = some o ∧ d ∉ live ∧
      now - o.modified < minAge := by
  constructor
  · intro h
    have hne : judge live now minAge disk p ≠ .leave := by rw [h]; decide
    obtain ⟨d, o, hd, ho, hl⟩ := object_of_judge hne
    rw [judge_object hd ho, if_neg hl] at h
    split_ifs at h with hage
    exact ⟨d, o, hd, ho, hl, hage⟩
  · rintro ⟨d, o, hd, ho, hl, hage⟩
    rw [judge_object hd ho, if_neg hl, if_pos hage]

theorem mem_keys_iff {p : Path} : p ∈ disk.keys ↔ ∃ o, disk.lookup p = some o := by
  rw [← AList.mem_keys, ← AList.lookup_isSome, Option.isSome_iff_exists]

theorem mem_removed {q : Path} : q ∈ removed disk disk' ↔
    (∃ o, disk.lookup q = some o) ∧ ¬∃ o, disk'.lookup q = some o := by
  rw [removed, List.mem_filter, decide_eq_true_eq, mem_keys_iff, mem_keys_iff]

theorem mem_spared {q : Path} : q ∈ st.spared live disk' ↔
    (∃ o, disk'.lookup q = some o) ∧ st.InFan q ∧ ∃ d, fileDigest q = some d ∧ d ∉ live := by
  rw [spared, List.mem_filter, decide_eq_true_eq, mem_keys_iff, Option.any_eq_true]
  simp only [decide_eq_true_eq]

/-- The files that are gone are those the sweep removed. -/
theorem perm_removed (hnodup : ps.Nodup) (hlookup : ∀ q, disk'.lookup q =
      if q ∈ ps ∧ judge live now minAge disk q = .remove then none else disk.lookup q) :
    (removed disk disk').Perm (ps.filter (judge live now minAge disk · = .remove)) := by
  have hkeys : (removed disk disk').Nodup := List.Nodup.filter _ disk.nodupKeys
  refine (List.perm_ext_iff_of_nodup hkeys (hnodup.filter _)).2 fun q => ?_
  rw [mem_removed, hlookup, List.mem_filter, decide_eq_true_eq]
  constructor
  · rintro ⟨⟨o, ho⟩, hgone⟩
    by_contra hnot
    rw [if_neg hnot] at hgone
    exact hgone ⟨o, ho⟩
  · intro h
    obtain ⟨d, o, -, ho, -⟩ := judge_remove.1 h.2
    rw [if_pos h]
    exact ⟨⟨o, ho⟩, by simp⟩

/-- The objects that are there though they were not marked are those the sweep spared. -/
theorem perm_spared {fans : List Fan} (hlists : st.Lists disk fans)
    (hlookup : ∀ q, disk'.lookup q = if q ∈ st.listed fans ∧
      judge live now minAge disk q = .remove then none else disk.lookup q) :
    (st.spared live disk').Perm
      ((st.listed fans).filter (judge live now minAge disk · = .spare)) := by
  have hkeys : (st.spared live disk').Nodup := List.Nodup.filter _ disk'.nodupKeys
  refine (List.perm_ext_iff_of_nodup hkeys (hlists.once.filter _)).2 fun q => ?_
  rw [mem_spared, hlookup, List.mem_filter, decide_eq_true_eq]
  constructor
  · rintro ⟨⟨o, ho⟩, hfan, d, hd, hl⟩
    split_ifs at ho with hgone
    have hlisted := hlists.all q (mem_keys_iff.2 ⟨o, ho⟩) hfan
    refine ⟨hlisted, judge_spare.2 ⟨d, o, hd, ho, hl, not_le.1 fun hage => hgone ⟨hlisted, ?_⟩⟩⟩
    exact judge_remove.2 ⟨d, o, hd, ho, hl, hage⟩
  · rintro ⟨hlisted, hspare⟩
    obtain ⟨d, o, hd, ho, hl, -⟩ := judge_spare.1 hspare
    have hstays : ¬(q ∈ st.listed fans ∧ judge live now minAge disk q = .remove) := by
      rw [hspare]
      exact fun h => absurd h.2 (by decide)
    rw [if_neg hstays]
    exact ⟨⟨o, ho⟩, hlists.inFan q hlisted, d, hd, hl⟩

/-- A collection that meets no fault removes every object that is at least `minAge` old and was not
marked, and nothing else. So what has stayed is young or reachable, and the account is exact. -/
theorem gc_collects {fans : List Fan} (hlists : st.Lists disk fans) (roots : List Digest) :
    ∃ after stats, st.gc b3 disk now roots minAge (.ok fans) = (after, .ok stats) ∧
      st.Collected b3 now roots minAge disk after stats := by
  obtain ⟨s', hs'⟩ : ∃ s', s' = (st.listed fans).foldl
    (sweepPath (st.mark b3 disk roots) now minAge)
    ⟨disk, ⟨(st.mark b3 disk roots).card, 0, 0, 0⟩⟩ := ⟨_, rfl⟩
  have hswept : Swept (st.mark b3 disk roots) now minAge (st.listed fans)
      ⟨disk, ⟨(st.mark b3 disk roots).card, 0, 0, 0⟩⟩ s' := hs' ▸ swept_foldl _ hlists.once
  have hgc : st.gc b3 disk now roots minAge (.ok fans) = (s'.disk, .ok s'.stats) := by
    unfold gc
    simp only [st.sweepFans_calm _ hlists.calm, ← hs']
  have hperm := perm_removed hlists.once hswept.lookup
  have hsound : ∀ n, Sound (st.refs b3 disk) roots
      (markLoop (st.refs b3 disk) n ⟨∅, roots.reverse⟩) := fun n =>
    markLoop_sound n (sound_init roots)
  refine ⟨s'.disk, s'.stats, hgc, fun p hp => ?_, fun p hp => ?_, fun p d o hfan hd ho => ?_,
    hswept.same, ?_, ?_, ?_⟩
  · obtain ⟨o, ho⟩ := mem_keys_iff.1 hp
    rw [hswept.lookup] at ho ⊢
    split_ifs at ho with hgone
    rw [if_neg hgone]
  · obtain ⟨-, hremove⟩ := List.mem_filter.1 (hperm.mem_iff.1 hp)
    obtain ⟨d, o, hd, ho, -, hage⟩ := judge_remove.1 (of_decide_eq_true hremove)
    exact ⟨d, o, hd, ho, hage⟩
  · rw [hswept.lookup] at ho
    split_ifs at ho with hgone
    by_cases hl : d ∈ st.mark b3 disk roots
    · exact .inr ((hsound _).1 d hl)
    · refine .inl (not_le.1 fun hage => hgone ⟨?_, judge_remove.2 ⟨d, o, hd, ho, hl, hage⟩⟩)
      exact hlists.all p (mem_keys_iff.2 ⟨o, ho⟩) hfan
  · rw [hswept.deleted, hperm.length_eq, Nat.zero_add]
  · rw [hswept.bytesFreed, (hperm.map _).sum_eq, Nat.zero_add]
  · rw [hswept.sparedYoung, (st.perm_spared hlists hswept.lookup).length_eq, Nat.zero_add]

end Collect

section Sample

/-- A listing of the sample store, a directory for each of its objects. -/
def sampleFans : List Fan :=
  [sampleBlob, sampleInner.digest sampleBlake3, sampleOuter.digest sampleBlake3].map fun d =>
    .listed d.fanout [.ok ⟨d.toHex, true, true, none⟩]

theorem sample_lists : sampleStore.Lists sampleDisk sampleFans where
  calm := by simp [sampleFans, Fan.Calm]
  once := by decide +kernel
  inFan := by decide +kernel
  all := by decide +kernel

/-- The directory that holds the inner one is collected, as it is not a root. -/
theorem sample_collected :
    ∃ after stats, sampleStore.gc sampleBlake3 sampleDisk 5 [sampleInner.digest sampleBlake3] 3
        (.ok sampleFans) = (after, .ok stats) ∧
      sampleStore.Collected sampleBlake3 5 [sampleInner.digest sampleBlake3] 3 sampleDisk after
        stats :=
  gc_collects sampleBlake3 sampleStore sample_lists [sampleInner.digest sampleBlake3]

end Sample

end ObjectStore

end Jetrun
