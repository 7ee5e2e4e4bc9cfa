import Jetrun.PowerCut
import Jetrun.Proofs.Durable
import Jetrun.Proofs.Retry

/-!
# What a put does for an object that was cut short

A put that finds nothing under the name of its object writes all of it. One that finds a file there
leaves it as it is, whatever it holds.
-/

namespace Jetrun

open Traced Volumes Volumes.Volume

namespace PowerCut

open ObjectStore Storing

variable {st : ObjectStore} {disk : PowerLoss.Disk Path} {v v' : Volume String}

theorem find (h : PowerCut disk v v') (p : Path) : v'.find p = v.find p := by
  rw [Volume.find, h.entries, Volume.find]

theorem isDir (h : PowerCut disk v v') (p : Path) : v'.isDir p = v.isDir p := by
  rw [Volume.isDir, h.find p, Volume.isDir]

/-- What is left is a store, but for what its objects hold. -/
theorem sound (h : PowerCut disk v v') (hs : Sound st (fun _ _ => True) v) :
    Sound st (fun _ _ => True) v' where
  tmp_dir := (h.isDir _).trans hs.tmp_dir
  objects_dir := (h.isDir _).trans hs.objects_dir
  fanout d e he := hs.fanout d e ((h.find _).symm.trans he)
  object d e he := by
    obtain ⟨i, rfl, -, hmode⟩ := hs.object d e ((h.find _).symm.trans he)
    exact ⟨i, rfl, trivial, (h.mode i).trans hmode⟩
  staged d e he := hs.staged d e ((h.find _).symm.trans he)
  staged_own d i hi q hq :=
    hs.staged_own d i ((h.find _).symm.trans hi) q ((h.find _).symm.trans hq)

/-- Of a file all of whose names wait to be flushed, any suffix may go. -/
theorem take {i : ℕ} (hwaits : ∀ p, v.find p = some (.file i) → disk.bytes p) (n : ℕ) :
    PowerCut disk v (v.setInode i
      ⟨(v.inode i).content.take n, (v.inode i).mode, (v.inode i).modified⟩) where
  entries := rfl
  mode j := by
    rw [inode_setInode]
    split_ifs with h
    · rw [h]
    · rfl
  content j := by
    rw [inode_setInode]
    split_ifs with h
    · rw [h]
      exact List.take_prefix _ _
    · exact List.prefix_rfl
  flushed p j hj hnot := by
    rw [inode_setInode, if_neg]
    rintro rfl
    exact hnot (hwaits p hj)

end PowerCut

namespace Storing

open ObjectStore Machine

variable {b3 : Blake3} {st : ObjectStore} {N : Digest → List UInt8 → Prop}
  {ok : StoreEvent → Prop} {d : Digest} {w : Link.Session Machine} {h : List StoreEvent}

section Reads

theorem gives_iff {v : Volume String} {bytes : List UInt8} :
    Gives st v d bytes ↔ readable v (st.objectPath d) = .ok bytes := by
  constructor
  · intro hgives
    have hres := hgives ⟨⟨v, fun _ => sampleMoment false, 0, ⟨fun _ _ => none, fun _ _ => none⟩,
      false⟩, .new⟩ rfl rfl
    have hbytes : st.bytesOf d (readable v (st.objectPath d)) = .ok bytes :=
      Except.eq_ok_of_mapError hres
    rcases hread : readable v (st.objectPath d) with e | c
    · rw [hread] at hbytes
      cases e <;> cases hbytes
    · rw [hread] at hbytes
      cases hbytes
      rfl
  · rintro hread w rfl hfault
    exact Ledger.getBytes_of_readable hfault hread

end Reads

section Whole

variable {i : ℕ} {bytes : List UInt8}

/-- The rename of a sealed staging file, and what comes after it. -/
theorem commitSealed_whole (hs : Sound st N w.os.volume)
    (hi : w.os.volume.find (st.stagingPath d) = some (.file i))
    (hcontent : (w.os.volume.inode i).content = bytes)
    (hdir : w.os.volume.isDir (st.fanoutPath d) = true) :
    Leads ok (do
      let result ← call (Machine.rename (st.stagingPath d) (st.objectPath d))
      emit (.rename (st.stagingPath d) (st.objectPath d) result)
      match result with
      | .ok () => syncParent st (st.fanoutPath d)
      | .error e => do
        let _ ← call (Machine.removeFile (st.stagingPath d))
        fail (.io "commit object" (st.objectPath d) e))
      (IfOk fun _ w' _ => readable w'.os.volume (st.objectPath d) = .ok bytes) w h := by
  refine leads_call_bind (acts_rename hi (hs.staging_spot d) (st.stagingPath_ne d d).symm
    (hs.object_free hdir) (fun e _ => ?_) fun hp hq he => ?_)
  · refine leads_emit_bind fun _ => leads_tick_bind (ticks_ask _ _) fun _ _ _ _ => leads_fail trivial
  · refine leads_emit_bind fun _ => syncParent_volume.mono fun r w' _ hv => ?_
    rcases r with e | u
    · trivial
    · show readable w'.os.volume _ = _
      rw [hv]
      show readable ((w.os.volume.erase _ hp).put _ (.file i) hq he) _ = _
      rw [readable, fileAt_eq_ok ((find_put hq he).trans (if_pos rfl))]
      exact congrArg Except.ok hcontent

/-- A staging file that holds these bytes becomes the object, if nothing fails. -/
theorem sealAndCommit_whole (hs : Sound st N w.os.volume)
    (hi : w.os.volume.find (st.stagingPath d) = some (.file i))
    (hcontent : (w.os.volume.inode i).content = bytes) :
    Leads ok (sealAndCommit st d (st.stagingPath d))
      (IfOk fun _ w' _ => readable w'.os.volume (st.objectPath d) = .ok bytes) w h := by
  unfold sealAndCommit
  refine leads_call_bind (acts_query_any fun r => leads_check_ifOk fun _ _ => ?_)
  refine leads_call_bind (acts_setPermissions (hs.staging_spot d).replacing hi
    (fun e _ => leads_check_ifOk fun _ h => by cases h) fun v hrep hi' hcontent' _ => ?_)
  refine leads_check_ifOk fun _ _ => ?_
  have hs₁ : Sound st N v := hs.replacing hrep
  obtain ⟨hne, hparent⟩ := hs₁.fanout_parent d
  refine leads_call_bind (acts_createDirAll hparent hne (hs₁.fanout d)
    (fun e _ => leads_check_ifOk fun _ h => by cases h) (fun hdir => ?_) fun hp he _ => ?_)
  · exact leads_check_ifOk fun _ _ => commitSealed_whole
      (w := ⟨((w.os.after w.os.volume).after v).after v, w.caps⟩) hs₁ hi'
      (hcontent'.trans hcontent) hdir
  · refine leads_check_ifOk fun _ _ => commitSealed_whole
      (w := ⟨((w.os.after w.os.volume).after v).after _, w.caps⟩) (hs₁.mkdir_fanout hp he) ?_
      (hcontent'.trans hcontent) (isDir_of_find ((find_put hp he).trans (if_pos rfl)))
    exact (find_put hp he).trans ((if_neg (stagingPath_ne_fanoutPath d d)).trans hi')

/-- Whatever was under the name of the object before, it is whole after an insert. -/
theorem insertStaged_whole (hs : Sound st N w.os.volume) :
    Leads ok (insertStaged st d fun fd => Machine.writeAll fd bytes)
      (IfOk fun _ w' _ => readable w'.os.volume (st.objectPath d) = .ok bytes) w h := by
  unfold insertStaged
  refine leads_call_bind (acts_openWrite (hs.staging_spot d).replacing
    (fun e _ => leads_check_ifOk fun _ h => by cases h) fun j v hopen _ => ?_)
  refine leads_check_ifOk fun fd hfd => ?_
  obtain rfl : j = fd := by simpa using hfd
  refine leads_call_bind (acts_ask (fun e _ => ?_) ?_)
  · exact leads_emit_bind fun _ => leads_check_ifOk fun _ h => by cases h
  refine leads_emit_bind fun _ => leads_check_ifOk fun _ _ => ?_
  obtain ⟨hrep, hfind, hcontent⟩ := opened_append (m := w.os.after v) hopen bytes
  refine leads_bind ?_
  unfold syncStaged
  split_ifs
  · refine leads_bind (leads_fsync fun result _ => leads_check (fun _ _ => ?_) fun _ _ => trivial)
    exact sealAndCommit_whole (hs.replacing hrep) hfind hcontent
  · exact leads_pure (sealAndCommit_whole (hs.replacing hrep) hfind hcontent)

end Whole

section Puts

variable {v : Volume String} {disk : PowerLoss.Disk Path} {bytes : List UInt8}

/-- The check for an object, by what it may not find. -/
theorem leads_overlooks_bind {β : Type} {k : Bool → Storing β}
    {R : Except Stop β → Link.Session Machine → List StoreEvent → Prop}
    (hs : Sound st N w.os.volume)
    (hk : ∀ b, (b = false ↔ Overlooks st d w.os) →
      Leads ok (k b) R { w with os := w.os.after w.os.volume } h) :
    Leads ok (has st d >>= k) R w h := by
  refine leads_call_bind (acts_bind (acts_query_scripted (fun e hf => ?_) fun hf => ?_))
  · exact hk false (iff_of_true rfl (.inl (by simp [hf])))
  rcases hfind : w.os.volume.find (st.objectPath d) with _ | e
  · exact hk false (iff_of_true rfl (.inr hfind))
  · obtain ⟨i, rfl, -⟩ := hs.object d e hfind
    exact hk true (iff_of_false (by simp) (by simp [Overlooks, hf, hfind]))

theorem putContent_whole (hs : Sound st N w.os.volume) (r : Request) :
    Leads ok (putContent b3 st r) (IfOk fun d w' _ => d = r.digest b3 ∧
      (Overlooks st d w.os → readable w'.os.volume (st.objectPath d) = .ok r.content) ∧
      (¬Overlooks st d w.os → w'.os.volume = w.os.volume)) w h := by
  unfold putContent
  refine leads_emit_bind fun _ => leads_overlooks_bind hs fun b hb => ?_
  rcases b with _ | _
  · rw [if_neg (by simp)]
    have hover := hb.1 rfl
    refine leads_bind_ifOk ((insertStaged_whole (w := { w with os := w.os.after w.os.volume })
      hs).mono fun res w' _ hres => ?_)
    rcases res with e | u
    · trivial
    · exact leads_emit_bind fun _ => leads_pure ⟨rfl, fun _ => hres, fun hnot => absurd hover hnot⟩
  · rw [if_pos rfl]
    refine leads_emit_bind fun _ => leads_pure ⟨rfl, fun hover => ?_, fun _ => rfl⟩
    cases hb.2 hover

/-- After a power loss a put of some bytes that succeeds leaves a whole object exactly if it
overlooks the one that is there, or that one has all of its bytes. -/
theorem put_heals_iff (hs : Sound st (fun _ _ => True) v) (hcut : PowerCut disk v w.os.volume)
    (hput : (putBytes b3 st bytes w).result = .ok d) :
    Gives st (putBytes b3 st bytes w).world.os.volume d bytes ↔
      Overlooks st d w.os ∨ readable w.os.volume (st.objectPath d) = .ok bytes := by
  have hleads : Leads (fun _ => True) (putContent b3 st (.bytes bytes)) _ w [] :=
    putContent_whole (hcut.sound hs) _
  have hend := hleads.outcome
  change IfOk _ (putBytes b3 st bytes w).result _ _ at hend
  rw [hput] at hend
  obtain ⟨-, hwritten, hleft⟩ := hend
  rw [gives_iff]
  by_cases hover : Overlooks st d w.os
  · exact iff_of_true (hwritten hover) (.inl hover)
  · have hsame : (putBytes b3 st bytes w).world.os.volume = w.os.volume := hleft hover
    rw [hsame]
    exact (or_iff_right hover).symm

end Puts

section Relaxed

variable {r : Request}

theorem sealAndCommit_relaxed (hrelaxed : st.durability = .relaxed) :
    Leads ok (sealAndCommit st d (st.stagingPath d)) (IfOk fun _ _ h' =>
      h' = h ++ [.rename (st.stagingPath d) (st.objectPath d) (.ok ())]) w h := by
  unfold sealAndCommit
  refine leads_tick_bind (ticks_ask _ _) fun _ _ _ _ => leads_check_ifOk fun _ _ => ?_
  refine leads_tick_bind (ticks_ask _ _) fun _ _ _ _ => leads_check_ifOk fun _ _ => ?_
  refine leads_tick_bind (ticks_ask _ _) fun _ _ _ _ => leads_check_ifOk fun _ _ => ?_
  refine leads_tick_bind (ticks_ask _ _) fun result _ _ _ => leads_emit_bind fun _ => ?_
  rcases result with e | u
  · exact leads_tick_bind (ticks_ask _ _) fun _ _ _ _ => leads_fail trivial
  · simp only [syncParent, hrelaxed, reduceCtorEq, if_false]
    exact leads_pure rfl

theorem putContent_relaxed (hrelaxed : st.durability = .relaxed) :
    Leads ok (putContent b3 st r) (IfOk fun d _ h' =>
      w.os.volume.find (st.objectPath d) = none → h' = h ++ [.put r,
        .write (st.stagingPath d) (.ok ()),
        .rename (st.stagingPath d) (st.objectPath d) (.ok ()), .stored r]) w h := by
  unfold putContent
  refine leads_emit_bind fun _ => leads_call_bind (acts_pathExists fun b hb _ => ?_)
  rcases b with _ | _
  · rw [if_neg (by simp)]
    refine leads_bind_ifOk ?_
    unfold insertStaged
    refine leads_tick_bind (ticks_ask _ _) fun _ _ _ _ => leads_check_ifOk fun fd _ => ?_
    refine leads_tick_bind (ticks_ask _ _) fun result _ _ _ => leads_emit_bind fun _ => ?_
    refine leads_check_ifOk fun u hu => leads_bind_ifOk ?_
    subst hu
    simp only [syncStaged, hrelaxed, reduceCtorEq, if_false]
    refine leads_pure ((sealAndCommit_relaxed hrelaxed).mono fun res w' h' hr => ?_)
    rcases res with e | u
    · trivial
    · refine leads_emit_bind fun _ => leads_pure fun _ => ?_
      rw [show h' = _ from hr]
      simp
  · exact leads_emit_bind fun _ => leads_pure fun habsent => absurd habsent (hb rfl)

/-- What a put has created in a relaxed store waits to be flushed. -/
theorem relaxed_waits (hrelaxed : st.durability = .relaxed)
    (hput : (putContent b3 st r w).result = .ok d)
    (habsent : w.os.volume.find (st.objectPath d) = none) :
    (PowerLoss.run List.dropLast PowerLoss.clean
      ((putContent b3 st r w).trace.filterMap StoreEvent.onDisk)).bytes (st.objectPath d) := by
  have hleads : Leads (fun _ => True) (putContent b3 st r) _ w [] := putContent_relaxed hrelaxed
  have htrace := hleads.outcome
  rw [hput] at htrace
  rw [htrace habsent]
  exact .inl ⟨rfl, .inl rfl⟩

end Relaxed

section Sample

def cutBytes : List UInt8 := [120, 121]

def cutDigest : Digest := blobDigest sampleBlake3 cutBytes

/-- The first put, in a store that was just opened. -/
def beforeCut : Outcome (Link.Session Machine) Stop StoreEvent Digest :=
  putBytes sampleBlake3 sampleStore cutBytes (sampleSession false)

/-- What a power loss leaves that spares so many bytes of the object, whose inode is 2. -/
def cutVolume (n : ℕ) : Volume String :=
  let v := beforeCut.world.os.volume
  v.setInode 2 ⟨(v.inode 2).content.take n, (v.inode 2).mode, (v.inode 2).modified⟩

def afterCut (n : ℕ) : Link.Session Machine := ⟨sampleMachine false (cutVolume n), .new⟩

theorem beforeCut_runs : beforeCut.result = .ok cutDigest ∧
    (sampleSession false).os.volume.find (sampleStore.objectPath cutDigest) = none ∧
    (∀ e ∈ beforeCut.world.os.volume.entries.entries, e.2 = .file 2 →
      e.1 = sampleStore.objectPath cutDigest) ∧
    (putBytes sampleBlake3 sampleStore cutBytes (afterCut 1)).result = .ok cutDigest ∧
    readable (putBytes sampleBlake3 sampleStore cutBytes (afterCut 1)).world.os.volume
      (sampleStore.objectPath cutDigest) = .ok [120] ∧
    (putBytes sampleBlake3 sampleStore cutBytes (afterCut 2)).result = .ok cutDigest ∧
    readable (afterCut 2).os.volume (sampleStore.objectPath cutDigest) = .ok cutBytes := by
  decide +kernel

theorem beforeCut_sound :
    Sound sampleStore (Named sampleBlake3 fun _ => True) beforeCut.world.os.volume := by
  have hunused : Unused sampleStore (sampleSession false).os.volume := sampleIngest_runs.2.1
  exact hunused.sound.after_put trivial

/-- What waits to be flushed after the first put. -/
def beforeCutDisk : PowerLoss.Disk Path :=
  PowerLoss.run List.dropLast PowerLoss.clean (beforeCut.trace.filterMap StoreEvent.onDisk)

theorem beforeCut_waits : beforeCutDisk.bytes (sampleStore.objectPath cutDigest) := by
  -- whatever the session is: the sample is not evaluated in what follows
  have hwaits : ∀ (b3 : Blake3) (st : ObjectStore) (w : Link.Session Machine) (d : Digest)
      (o : Outcome (Link.Session Machine) Stop StoreEvent Digest), putBytes b3 st cutBytes w = o →
      st.durability = .relaxed → o.result = .ok d → w.os.volume.find (st.objectPath d) = none →
      (PowerLoss.run List.dropLast PowerLoss.clean
        (o.trace.filterMap StoreEvent.onDisk)).bytes (st.objectPath d) := by
    rintro b3 st w d o rfl hrelaxed hput habsent
    exact relaxed_waits hrelaxed hput habsent
  exact hwaits _ _ _ _ _ rfl rfl beforeCut_runs.1 beforeCut_runs.2.1

theorem cutVolume_cut (n : ℕ) :
    PowerCut beforeCutDisk beforeCut.world.os.volume (cutVolume n) := by
  unfold cutVolume
  have hnames := beforeCut_runs.2.2.1
  have hwaits := beforeCut_waits
  generalize beforeCut.world.os.volume = v at hnames ⊢
  refine PowerCut.take (fun p hp => ?_) n
  have hsame : p = sampleStore.objectPath cutDigest :=
    hnames ⟨p, .file 2⟩ (AList.mem_lookup_iff.1 hp) rfl
  rwa [hsame]

/-- The second put answers that the object is there, but it has lost its last byte. -/
theorem truncated_stays : sampleStore.durability = .relaxed ∧
    Unused sampleStore (sampleSession false).os.volume ∧
    (putBytes sampleBlake3 sampleStore cutBytes (sampleSession false)).result = .ok cutDigest ∧
    PowerCut beforeCutDisk beforeCut.world.os.volume (afterCut 1).os.volume ∧
    (afterCut 1).os.Calm ∧
    (putBytes sampleBlake3 sampleStore cutBytes (afterCut 1)).result = .ok cutDigest ∧
    ¬Gives sampleStore (putBytes sampleBlake3 sampleStore cutBytes (afterCut 1)).world.os.volume
      cutDigest cutBytes := by
  obtain ⟨hput, -, -, hagain, hread, -⟩ := beforeCut_runs
  refine ⟨rfl, sampleIngest_runs.2.1, hput, cutVolume_cut 1, fun _ => rfl, hagain, fun hgives => ?_⟩
  have hwhole := hread.symm.trans (gives_iff.1 hgives)
  cases hwhole

/-- A power loss that spares all of the object. -/
theorem spared_heals :
    Gives sampleStore (putBytes sampleBlake3 sampleStore cutBytes (afterCut 2)).world.os.volume
      cutDigest cutBytes := by
  obtain ⟨-, -, -, -, -, hagain, hread⟩ := beforeCut_runs
  have hsound := beforeCut_sound.mono fun _ _ _ => trivial
  exact (put_heals_iff hsound (cutVolume_cut 2) hagain).2 (.inr hread)

end Sample

end Storing

end Jetrun
