import Jetrun.Proofs.Ledger

/-!
# A put that is tried again

A put that fails, or whose process is killed, leaves what it has done so far. From some call on a
process that is killed makes no more calls: for what it leaves, they all fail without doing
anything.

Most of what is left does not stand in the way of the next put of that content. A staging file that
was sealed does: it is neither in place nor can it be opened again.
-/

namespace Jetrun

open Traced Volumes Volumes.Volume

namespace Storing

open ObjectStore Machine

section Condition

/-- From a call on, a staging file is sealed and neither renamed into place nor removed. -/
def SealsInVain (m : Machine) (n : ℕ) : Prop :=
  (m.script n).fault = none ∧ (m.script (n + 1)).fault = none ∧
    ((m.script (n + 2)).fault ≠ none ∨
      (m.script (n + 3)).fault ≠ none ∧ (m.script (n + 4)).fault ≠ none)

/-- From a call on, a staging file is opened, written, and sealed in vain. -/
def StrandsAt (st : ObjectStore) (m : Machine) (n : ℕ) : Prop :=
  (m.script n).fault = none ∧ (m.script (n + 1)).fault = none ∧
    if st.durability = .synced then (m.script (n + 2)).fault = none ∧ SealsInVain m (n + 3)
    else SealsInVain m (n + 2)

theorem strandsAt_of_synced {st : ObjectStore} {m : Machine} {n : ℕ}
    (hsynced : st.durability = .synced) : StrandsAt st m n ↔ (m.script n).fault = none ∧
      (m.script (n + 1)).fault = none ∧ (m.script (n + 2)).fault = none ∧
        SealsInVain m (n + 3) := by
  rw [StrandsAt, if_pos hsynced]

theorem strandsAt_of_relaxed {st : ObjectStore} {m : Machine} {n : ℕ}
    (hrelaxed : st.durability ≠ .synced) : StrandsAt st m n ↔ (m.script n).fault = none ∧
      (m.script (n + 1)).fault = none ∧ SealsInVain m (n + 2) := by
  rw [StrandsAt, if_neg hrelaxed]

/-- The object is there, or its staging file can be opened and the put does not strand it. -/
def Retriable (st : ObjectStore) (d : Digest) (m : Machine) : Prop :=
  m.volume.find (st.objectPath d) ≠ none ∨
    m.Writable (st.stagingPath d) ∧ ¬StrandsAt st m (m.clock + 1)

/-- A put of this content succeeds, and the content can be read then. -/
def PutsAndReads (b3 : Blake3) (st : ObjectStore) (r : Request) (w : Link.Session Machine) : Prop :=
  (putContent b3 st r w).result = .ok (r.digest b3) ∧
    (getBytes st (r.digest b3) (putContent b3 st r w).world).result = .ok r.content

end Condition

variable {b3 : Blake3} {st : ObjectStore} {S : Request → Prop} {N : Digest → List UInt8 → Prop}
  {ok : StoreEvent → Prop} {d : Digest} {w : Link.Session Machine} {h : List StoreEvent}

section Residue

variable {m : Machine} {i : ℕ}

theorem ready_of_writable (hi : m.volume.find (st.stagingPath d) = some (.file i))
    (hmode : (m.volume.inode i).mode &&& Inodes.ownerWrite ≠ 0) : Ready st m d :=
  .inr (.inr ⟨i, hi, .inr hmode⟩)

/-- A sealed staging file is in the way of its own content. -/
theorem not_ready_of_sealed (hpriv : m.privileged = false)
    (habsent : m.volume.find (st.objectPath d) = none)
    (hi : m.volume.find (st.stagingPath d) = some (.file i))
    (hmode : (m.volume.inode i).mode = objectMode) : ¬Ready st m d := by
  rintro (hthere | hnone | ⟨j, hj, hwrite⟩)
  · exact hthere habsent
  · rw [hi] at hnone
    cases hnone
  · obtain rfl : i = j := by simpa using hi.symm.trans hj
    rw [hpriv, hmode] at hwrite
    simp [objectMode, Inodes.ownerWrite] at hwrite

theorem syncParent_volume {parent : Path} :
    Leads ok (syncParent st parent) (fun _ w' _ => w'.os.volume = w.os.volume) w h := by
  unfold syncParent
  split_ifs
  · refine leads_call_bind (acts_query_any fun r => ?_)
    rcases r with e | u
    · exact leads_pure rfl
    · exact leads_bind (leads_fsync fun _ _ => leads_pure rfl)
  · exact leads_pure rfl

/-- From the rename on the staging file is sealed, and only the rename or its removal helps. -/
theorem commitSealed_ready (hs : Sound st N w.os.volume) (hpriv : w.os.privileged = false)
    (habsent : w.os.volume.find (st.objectPath d) = none)
    (hi : w.os.volume.find (st.stagingPath d) = some (.file i))
    (hmode : (w.os.volume.inode i).mode = objectMode)
    (hdir : w.os.volume.isDir (st.fanoutPath d) = true) :
    Leads ok (do
      let result ← call (Machine.rename (st.stagingPath d) (st.objectPath d))
      emit (.rename (st.stagingPath d) (st.objectPath d) result)
      match result with
      | .ok () => syncParent st (st.fanoutPath d)
      | .error e => do
        let _ ← call (Machine.removeFile (st.stagingPath d))
        fail (.io "commit object" (st.objectPath d) e))
      (fun _ w' _ => Ready st w'.os d ↔ ¬((w.os.script w.os.clock).fault ≠ none ∧
        (w.os.script (w.os.clock + 1)).fault ≠ none)) w h := by
  refine leads_call_bind (acts_rename_scripted hi (hs.staging_spot d)
    (st.stagingPath_ne d d).symm (hs.object_free hdir) (fun e hf => ?_) fun hf hp hq he => ?_)
  · refine leads_emit_bind fun _ => leads_call_bind (acts_removeFile_scripted (fun e' hf' => ?_)
      (fun hdir => ?_) (fun hnone => ?_) fun hf' hp => ?_)
    · refine leads_fail (iff_of_false (not_ready_of_sealed hpriv habsent hi hmode)
        (not_not_intro ⟨?_, ?_⟩))
      · exact fun hnone => absurd (hf.symm.trans hnone) (by simp)
      · exact fun hnone => absurd (hf'.symm.trans hnone) (by simp)
    · exact absurd (hdir.symm.trans (hs.staging_spot d).free.2.2) (by simp)
    · exact absurd (hnone.symm.trans hi) (by simp)
    · exact leads_fail (iff_of_true (.inr (.inl ((find_erase hp).trans (if_pos rfl))))
        fun hvain => hvain.2 hf')
  · refine leads_emit_bind fun _ => syncParent_volume.mono fun _ w' _ hv => ?_
    refine iff_of_true (.inl ?_) fun hvain => hvain.1 hf
    rw [hv]
    show Volume.find (Volume.put _ _ _ hq he) _ ≠ none
    rw [find_put, if_pos rfl]
    simp

/-- `seal_and_commit` of a staging file that can be written leaves it so, or puts it in place,
unless it seals it in vain. -/
theorem sealAndCommit_ready (hs : Sound st N w.os.volume) (hpriv : w.os.privileged = false)
    (habsent : w.os.volume.find (st.objectPath d) = none)
    (hi : w.os.volume.find (st.stagingPath d) = some (.file i))
    (hmode : (w.os.volume.inode i).mode &&& Inodes.ownerWrite ≠ 0) :
    Leads ok (sealAndCommit st d (st.stagingPath d))
      (fun _ w' _ => Ready st w'.os d ↔ ¬SealsInVain w.os w.os.clock) w h := by
  unfold sealAndCommit
  refine leads_call_bind (acts_query_scripted (fun e hf => ?_) fun hf₀ => ?_)
  · refine leads_check_bind (fun _ h => by cases h) fun _ _ => ?_
    refine iff_of_true (ready_of_writable hi hmode) fun hvain => ?_
    exact absurd (hf.symm.trans hvain.1) (by simp)
  rw [hi]
  refine leads_check_bind (fun _ _ => ?_) fun _ h => by cases h
  refine leads_call_bind (acts_setPermissions_scripted (hs.staging_spot d).replacing hi
    (fun e hf => ?_) fun hf₁ v hrep hi' _ hsealed => ?_)
  · refine leads_check_bind (fun _ h => by cases h) fun _ _ => ?_
    refine iff_of_true (ready_of_writable hi hmode) fun hvain => ?_
    exact absurd (hf.symm.trans hvain.2.1) (by simp)
  refine leads_check_bind (fun _ _ => ?_) fun _ h => by cases h
  have hs₁ : Sound st N v := hs.replacing hrep
  have habsent₁ : v.find (st.objectPath d) = none :=
    (hrep.find_eq (st.stagingPath_ne d d).symm).trans habsent
  obtain ⟨hne, hparent⟩ := hs₁.fanout_parent d
  have hvain : (w.os.script (w.os.clock + 2)).fault = none → (SealsInVain w.os w.os.clock ↔
      (w.os.script (w.os.clock + 3)).fault ≠ none ∧ (w.os.script (w.os.clock + 4)).fault ≠ none) :=
    fun hf₂ => ⟨fun hvain => hvain.2.2.resolve_left (not_not_intro hf₂),
      fun hvain => ⟨hf₀, hf₁, .inr hvain⟩⟩
  refine leads_call_bind (acts_createDirAll_scripted hparent hne (hs₁.fanout d)
    (fun e hf₂ => ?_) (fun hf₂ hdir => ?_) fun hf₂ hp he _ => ?_)
  · refine leads_check_bind (fun _ h => by cases h) fun _ _ => ?_
    refine iff_of_false (not_ready_of_sealed hpriv habsent₁ hi' hsealed)
      (not_not_intro ⟨hf₀, hf₁, .inl fun hnone => ?_⟩)
    exact absurd (hf₂.symm.trans hnone) (by simp)
  · refine leads_check_bind (fun _ _ => ?_) fun _ h => by cases h
    refine (commitSealed_ready (w := ⟨((w.os.after w.os.volume).after v).after v, w.caps⟩) hs₁ hpriv
      habsent₁ hi' hsealed hdir).mono fun _ w' _ hready => ?_
    exact hready.trans (not_congr (hvain hf₂).symm)
  · refine leads_check_bind (fun _ _ => ?_) fun _ h => by cases h
    refine (commitSealed_ready (w := ⟨((w.os.after w.os.volume).after v).after _, w.caps⟩)
      (hs₁.mkdir_fanout hp he) hpriv ?_ ?_ hsealed ?_).mono fun _ w' _ hready => ?_
    · exact (find_put hp he).trans ((if_neg (objectPath_ne_fanoutPath d d)).trans habsent₁)
    · exact (find_put hp he).trans ((if_neg (stagingPath_ne_fanoutPath d d)).trans hi')
    · exact isDir_of_find ((find_put hp he).trans (if_pos rfl))
    · exact hready.trans (not_congr (hvain hf₂).symm)

/-- `insert_staged` needs a staging file that can be opened, and leaves one or the object, unless it
strands it. -/
theorem insertStaged_ready (hs : Sound st N w.os.volume) (hpriv : w.os.privileged = false)
    (habsent : w.os.volume.find (st.objectPath d) = none) (bytes : List UInt8) :
    Leads ok (insertStaged st d fun fd => Machine.writeAll fd bytes)
      (fun _ w' _ => Ready st w'.os d ↔
        w.os.Writable (st.stagingPath d) ∧ ¬StrandsAt st w.os w.os.clock) w h := by
  unfold insertStaged
  refine leads_call_bind (acts_openWrite_scripted (hs.staging_spot d).replacing (fun e hf => ?_)
    (fun e hw => ?_) fun hf j v hj hopen hw => ?_)
  · refine leads_check_bind (fun _ h => by cases h) fun _ _ => ?_
    have hnot : ¬StrandsAt st w.os w.os.clock := fun hstrands =>
      absurd (hf.symm.trans hstrands.1) (by simp)
    constructor
    · exact fun hready => ⟨hready.resolve_left (not_not_intro habsent), hnot⟩
    · exact fun hw => .inr hw.1
  · refine leads_check_bind (fun _ h => by cases h) fun _ _ => ?_
    exact iff_of_false (fun hready => hw (hready.resolve_left (not_not_intro habsent)))
      fun h => hw h.1
  refine leads_check_bind (fun fd hfd => ?_) fun _ h => by cases h
  obtain rfl : j = fd := by simpa using hfd
  have hmode : (v.inode j).mode &&& Inodes.ownerWrite ≠ 0 :=
    openTruncate_mode hj hpriv (by decide)
  have hmode' : ∀ more, (((w.os.after v).append v j more).inode j).mode &&& Inodes.ownerWrite ≠ 0 :=
    fun more => by
      rw [append, inode_setInode, if_pos rfl]
      exact hmode
  refine leads_call_bind (acts_ask_scripted (fun e hf' => ?_) fun hf' => ?_)
  · refine leads_emit_bind fun _ => leads_check_bind (fun _ h => by cases h) fun _ _ => ?_
    refine iff_of_true (ready_of_writable hopen.find (hmode' _)) ⟨hw, fun hstrands => ?_⟩
    exact absurd (hf'.symm.trans hstrands.2.1) (by simp)
  refine leads_emit_bind fun _ => leads_check_bind (fun _ _ => ?_) fun _ h => by cases h
  have hrep : Replacing w.os.volume (st.stagingPath d) ((w.os.after v).append v j bytes) :=
    (opened_append hopen bytes).1
  have hs' : Sound st N ((w.os.after v).append v j bytes) := hs.replacing hrep
  have habsent' : ((w.os.after v).append v j bytes).find (st.objectPath d) = none :=
    (hrep.find_eq (st.stagingPath_ne d d).symm).trans habsent
  have hseal : ∀ (m : Machine) (h : List StoreEvent),
      m.volume = (w.os.after v).append v j bytes → m.privileged = false →
      Leads ok (sealAndCommit st d (st.stagingPath d))
        (fun _ w' _ => Ready st w'.os d ↔ ¬SealsInVain m m.clock) { w with os := m } h := by
    rintro ⟨_, script, clock, support, privileged⟩ h rfl hp
    exact sealAndCommit_ready (w := ⟨⟨_, script, clock, support, privileged⟩, w.caps⟩) hs' hp
      habsent' hopen.find (hmode' _)
  refine leads_bind ?_
  unfold syncStaged
  split_ifs with hsynced
  · refine leads_bind (leads_call_bind (acts_query_scripted (fun e hf₂ => ?_) fun hf₂ => ?_))
    · refine leads_emit_bind fun _ => leads_pure (leads_check (fun _ h => by cases h) fun _ _ => ?_)
      refine iff_of_true (ready_of_writable hopen.find (hmode' _)) ⟨hw, fun hstrands => ?_⟩
      obtain ⟨-, -, hsync, -⟩ := (strandsAt_of_synced hsynced).1 hstrands
      exact absurd (hf₂.symm.trans hsync) (by simp)
    · refine leads_emit_bind fun _ => leads_pure (leads_check (fun _ _ => ?_) fun _ h => by cases h)
      refine Leads.mono (hseal _ _ ?_ ?_) fun _ w' _ hr => ?_
      · rfl
      · exact hpriv
      rw [hr, strandsAt_of_synced hsynced]
      constructor
      · exact fun hvain => ⟨hw, fun hstrands => hvain hstrands.2.2.2⟩
      · exact fun hnot hvain => hnot.2 ⟨hf, hf', hf₂, hvain⟩
  · refine leads_pure ?_
    refine Leads.mono (hseal _ _ ?_ ?_) fun _ w' _ hr => ?_
    · rfl
    · exact hpriv
    rw [hr, strandsAt_of_relaxed hsynced]
    constructor
    · exact fun hvain => ⟨hw, fun hstrands => hvain hstrands.2.2⟩
    · exact fun hnot hvain => hnot.2 ⟨hf, hf', hvain⟩

end Residue

section Puts

variable {r : Request}

theorem putContent_ready (hs : Sound st (Named b3 S) w.os.volume) (hpriv : w.os.privileged = false)
    (hr : S r) :
    Ready st (putContent b3 st r w).world.os (r.digest b3) ↔ Retriable st (r.digest b3) w.os := by
  by_cases hthere : w.os.volume.find (st.objectPath (r.digest b3)) = none
  · have hleads : Leads (fun _ => True) (putContent b3 st r) (fun _ w' _ =>
        Ready st w'.os (r.digest b3) ↔ w.os.Writable (st.stagingPath (r.digest b3)) ∧
          ¬StrandsAt st w.os (w.os.clock + 1)) w [] := by
      refine leads_emit_bind fun _ => leads_has_bind hs fun b hb _ => ?_
      rcases b with _ | _
      · rw [if_neg (by simp)]
        refine leads_bind ((insertStaged_ready (w := { w with os := w.os.after w.os.volume }) hs hpriv
          hthere r.content).mono fun res w' _ hw => ?_)
        rcases res with e | u
        · exact hw
        · exact leads_emit_bind fun _ => leads_pure hw
      · exact absurd hthere (hb rfl)
    have hready : Ready st (putContent b3 st r w).world.os (r.digest b3) ↔
        w.os.Writable (st.stagingPath (r.digest b3)) ∧ ¬StrandsAt st w.os (w.os.clock + 1) :=
      hleads fun _ _ => trivial
    rw [hready]
    exact (or_iff_right (not_not_intro hthere)).symm
  · have hleads : Leads (fun _ => True) (putContent b3 st r) _ w [] :=
      putContent_leads hs fun _ => hr
    exact iff_of_true (.inl (hleads.outcome.1.kept _ hthere)) (.inl hthere)

/-- With no fault of the system, a put succeeds exactly if it is ready to. -/
theorem putsAndReads_iff (hs : Sound st (Named b3 S) w.os.volume) (hcoll : Collisionless b3 S)
    (hr : S r) (hcalm : w.os.Calm) : PutsAndReads b3 st r w ↔ Ready st w.os (r.digest b3) := by
  have hleads : Leads (fun _ => True) (putContent b3 st r) _ w [] := putContent_leads hs fun _ => hr
  have hend := hleads.outcome
  unfold PutsAndReads
  rcases hres : (putContent b3 st r w).result with e | d
  · rw [hres] at hend
    exact iff_of_false (fun h => by cases h.1) (hend.2 hcalm)
  · rw [hres] at hend
    obtain ⟨hserved, rfl, -, hthere, hready, -⟩ := hend
    refine iff_of_true ⟨rfl, Ledger.getBytes_of_readable ?_ ?_⟩ hready
    · rw [moment]
      exact hserved.continues.calm.2 hcalm _
    · exact hserved.sound.readable_of_named hcoll hr hthere

/-- After a put that went however it did, the same user puts the content again with no fault of the
system. That succeeds, and the content can be read, exactly if the first put was `Retriable`. -/
theorem retried_iff {w' : Link.Session Machine} (hs : Sound st (Named b3 S) w.os.volume)
    (hcoll : Collisionless b3 S) (hr : S r) (hpriv : w.os.privileged = false)
    (hvolume : w'.os.volume = (putContent b3 st r w).world.os.volume)
    (hpriv' : w'.os.privileged = false) (hcalm : w'.os.Calm) :
    PutsAndReads b3 st r w' ↔ Retriable st (r.digest b3) w.os := by
  have hleads : Leads (fun _ => True) (putContent b3 st r) _ w [] := putContent_leads hs fun _ => hr
  have hend := hleads.outcome
  have hs' : Sound st (Named b3 S) w'.os.volume := hvolume ▸ hs.after_put hr
  rw [putsAndReads_iff hs' hcoll hr hcalm, ← putContent_ready hs hpriv hr]
  unfold Ready Writable
  rw [hvolume, hpriv', hend.1.continues.privileged, hpriv]

end Puts

section Sample

/-- The sample machine, with one call for which there is no space left. -/
def fullAt (n : ℕ) : Link.Session Machine :=
  let w := sampleSession false
  { w with os := { w.os with script := fun k =>
      { w.os.script k with fault := if k = n then some (.other 28) else none } } }

/-- The sample machine on what another one has left. -/
def leftBy (w : Link.Session Machine) : Link.Session Machine :=
  { w with os := { (sampleSession false).os with volume := w.os.volume } }

/-- A put that fails in its write, and again. -/
theorem sample_retried : PutsAndReads sampleBlake3 sampleStore (.bytes [120])
    (leftBy (putBytes sampleBlake3 sampleStore [120] (fullAt 2)).world) := by
  have hunused : Unused sampleStore (fullAt 2).os.volume := sampleIngest_runs.2.1
  have hs : Sound sampleStore (Named sampleBlake3 (· = .bytes [120])) (fullAt 2).os.volume :=
    hunused.sound
  have hcoll : Collisionless sampleBlake3 (· = .bytes [120]) := fun r r' hr hr' _ => by
    rw [hr, hr']
  have hnone : (fullAt 2).os.volume.find
      (sampleStore.stagingPath ((Request.bytes [120]).digest sampleBlake3)) = none := by
    decide +kernel
  have hfull : ¬StrandsAt sampleStore (fullAt 2).os ((fullAt 2).os.clock + 1) := fun h => by
    cases h.2.1
  have hvolume : (leftBy (putBytes sampleBlake3 sampleStore [120] (fullAt 2)).world).os.volume
      = (putContent sampleBlake3 sampleStore (.bytes [120]) (fullAt 2)).world.os.volume := rfl
  exact (retried_iff hs hcoll rfl rfl hvolume rfl fun _ => rfl).2 (.inr ⟨.inl hnone, hfull⟩)

/-- A put that cannot create the directory of its object. Its staging file is sealed by then. -/
theorem stranded_not_retried : Unused sampleStore (fullAt 5).os.volume ∧
    (fullAt 5).os.privileged = false ∧
    (leftBy (putBytes sampleBlake3 sampleStore [120] (fullAt 5)).world).os.Calm ∧
    (leftBy (putBytes sampleBlake3 sampleStore [120] (fullAt 5)).world).os.privileged = false ∧
    ¬PutsAndReads sampleBlake3 sampleStore (.bytes [120])
      (leftBy (putBytes sampleBlake3 sampleStore [120] (fullAt 5)).world) := by
  have hrun : (putContent sampleBlake3 sampleStore (.bytes [120])
      (leftBy (putBytes sampleBlake3 sampleStore [120] (fullAt 5)).world)).result
        ≠ .ok sampleBlob := by decide +kernel
  exact ⟨sampleIngest_runs.2.1, rfl, fun _ => rfl, rfl, fun h => hrun h.1⟩

end Sample

end Storing

end Jetrun
