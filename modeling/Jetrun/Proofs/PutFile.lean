import Jetrun.Proofs.Staging
import Jetrun.PutFile

/-!
# What a file's owner may do while it is ingested

If the file holds one content whenever the call reads from it, the object that is created holds that
content, and the digest is that of it. What is staged is out of the owner's reach, since nothing but
its staging path names its inode.

A rewrite between the two readings goes unnoticed: the digest is that of the old content, and the
object holds the new one.
-/

namespace Jetrun

/-- Nothing was committed yet. -/
def FilePhase.pending : FilePhase → Bool
  | .finish _ _ .syncDir | .done _ => false
  | _ => true

namespace Ingest

open Inodes ObjectStore

variable {b3 : Blake3} {st : ObjectStore} {privileged : Bool}

/-- The file that is ingested lies outside the store. -/
def Outside (st : ObjectStore) (path : Path) : Prop :=
  ∀ d, path ≠ st.stagingPath d ∧ path ≠ st.objectPath d

/-- The object stands there under no other name, and holds what its digest names. -/
structure Stored (b3 : Blake3) (st : ObjectStore) (fs : Files) (d : Digest) (i : ℕ) : Prop where
  file : fs.file (st.objectPath d) = some i
  names : blobDigest b3 (fs.inode i).content = d
  sole : ∀ q, fs.file q = some i → q = st.objectPath d

/-- What is staged so far. -/
structure Copied (st : ObjectStore) (content : List UInt8) (fs : Files) (d : Digest)
    (dst offset : ℕ) : Prop where
  file : fs.file (st.stagingPath d) = some dst
  within : offset ≤ content.length
  content_eq : (fs.inode dst).content = content.take offset

/-- What is known in each phase, if the file holds `content` whenever it is read. -/
def Known (b3 : Blake3) (st : ObjectStore) (content : List UInt8) (before fs : Files) :
    FilePhase → Prop
  | .hashRead _ _ fed => fed.flatten <+: content
  | .placing d _ p => blobDigest b3 content = d ∧
    match p with
    | .clone _ dst => fs.file (st.stagingPath d) = some dst
    | .copy _ dst offset => Copied st content fs d dst offset
    | .stream _ dst offset => Copied st content fs d dst offset
    | _ => True
  | .finish d _ p =>
    match p with
    | .check | .create | .write .. => False
    | .syncDir => ∃ i, Stored b3 st fs d i
    | .cleanup _ | .done _ => True
    | _ => blobDigest b3 content = d ∧ ∃ dst, Copied st content fs d dst content.length
  | .done (.ok (d, _)) => before.file (st.objectPath d) = none → ∃ i, Stored b3 st fs d i
  | _ => True

structure Following (b3 : Blake3) (st : ObjectStore) (content : List UInt8) (path : Path)
    (before : Files) (s : Ingest) : Prop where
  path_eq : s.path = path
  separate : Separate (Staged st) s.fs
  kept : s.phase.pending → ∀ d, s.fs.file (st.objectPath d) = before.file (st.objectPath d)
  known : Known b3 st content before s.fs s.phase

section Owner

variable {fs fs' : Files} {path : Path} {content : List UInt8}

/-- What a rewrite by the owner can change. -/
structure Rewritten (path : Path) (fs fs' : Files) : Prop where
  file : ∀ {q}, q ≠ path → fs'.file q = fs.file q
  same : ∀ {i}, fs'.file path = some i → fs.file path = some i ∨ fs.next ≤ i
  content : ∀ {i}, i < fs.next → fs.file path ≠ some i → (fs'.inode i).content = (fs.inode i).content

theorem Rewritten.copied (h : Rewritten path fs fs') (hsep : Separate (Staged st) fs)
    (hpath : Outside st path) {d : Digest} {dst offset : ℕ} (hc : Copied st content fs d dst offset) :
    Copied st content fs' d dst offset := by
  have hne : fs.file path ≠ some dst := fun hp =>
    (hpath d).1 (hsep.sole ⟨d, rfl⟩ hc.file hp)
  refine ⟨?_, hc.within, ?_⟩
  · rw [h.file (hpath d).1.symm]
    exact hc.file
  · rw [h.content (hsep.lt_next hc.file) hne]
    exact hc.content_eq

theorem Rewritten.stored (h : Rewritten path fs fs') (hsep : Separate (Staged st) fs)
    (hpath : Outside st path) {d : Digest} {i : ℕ} (hs : Stored b3 st fs d i) :
    Stored b3 st fs' d i := by
  have hlt := hsep.lt_next hs.file
  have hne : fs.file path ≠ some i := fun hp => (hpath d).2 (hs.sole _ hp)
  refine ⟨?_, ?_, fun q hq => ?_⟩
  · rw [h.file (hpath d).2.symm]
    exact hs.file
  · rw [h.content hlt hne]
    exact hs.names
  · by_cases hqp : q = path
    · subst hqp
      rcases h.same hq with hold | hnew
      · exact absurd hold hne
      · omega
    · rw [h.file hqp] at hq
      exact hs.sole q hq

theorem Rewritten.known (h : Rewritten path fs fs') (hsep : Separate (Staged st) fs)
    (hpath : Outside st path) {before : Files} {phase : FilePhase}
    (hk : Known b3 st content before fs phase) : Known b3 st content before fs' phase := by
  cases phase with
  | lstat => trivial
  | hashOpen size => trivial
  | hashRead size fd fed => exact hk
  | placing d size p =>
    refine ⟨hk.1, ?_⟩
    cases p with
    | clone src dst =>
      have hfile : fs.file (st.stagingPath d) = some dst := hk.2
      exact (h.file (hpath d).1.symm).trans hfile
    | copy src dst offset => exact h.copied hsep hpath hk.2
    | stream src dst offset => exact h.copied hsep hpath hk.2
    | _ => trivial
  | finish d size p =>
    cases p with
    | check => exact hk
    | create => exact hk
    | write => exact hk
    | syncDir =>
      obtain ⟨i, hi⟩ := hk
      exact ⟨i, h.stored hsep hpath hi⟩
    | cleanup e => trivial
    | done r => trivial
    | _ =>
      obtain ⟨hd, dst, hc⟩ := hk
      exact ⟨hd, dst, h.copied hsep hpath hc⟩
  | done result =>
    rcases result with e | ⟨d, size⟩
    · trivial
    · intro hnew
      obtain ⟨i, hi⟩ := hk hnew
      exact ⟨i, h.stored hsep hpath hi⟩

theorem rewritten_setInode {i : ℕ} (hi : fs.file path = some i) (inode : Inode) :
    Rewritten path fs (fs.setInode i inode) := by
  refine ⟨fun _ => rfl, fun h => .inl h, fun {j} _ hne => ?_⟩
  have hji : j ≠ i := fun hji => hne (hji ▸ hi)
  simp [Fs.setInode, Function.update_of_ne hji]

theorem rewritten_create (inode : Inode) : Rewritten path fs (fs.create path inode) := by
  refine ⟨fun hq => ?_, fun h => .inr ?_, fun {j} hlt _ => ?_⟩
  · simp [Fs.create, Fs.setFile, Fs.setInode, Function.update_of_ne hq]
  · simp only [Fs.create, Fs.setFile, Function.update_self, Option.some.injEq] at h
    exact h.le
  · have hj : j ≠ fs.next := hlt.ne
    simp [Fs.create, Fs.setFile, Fs.setInode, Function.update_of_ne hj]

/-- Whatever the owner does, what is known stays known. -/
theorem Following.rewritten {before : Files} {s : Ingest}
    (h : Following b3 st content path before s) (hpath : Outside st path)
    (hr : Rewritten path s.fs fs') (hsep : Separate (Staged st) fs') :
    Following b3 st content path before { s with fs := fs' } where
  path_eq := h.path_eq
  separate := hsep
  kept hp d := by
    show fs'.file _ = _
    rw [hr.file (hpath d).2.symm]
    exact h.kept hp d
  known := hr.known h.separate hpath h.known

end Owner

section Call

variable {content : List UInt8} {path : Path} {before : Files} {s : Ingest}

/-- Only staging files were touched. -/
structure Restaged (st : ObjectStore) (fs fs' : Files) : Prop where
  separate : Separate (Staged st) fs'
  object : ∀ d, fs'.file (st.objectPath d) = fs.file (st.objectPath d)

theorem restaged_refl {fs : Files} (h : Separate (Staged st) fs) : Restaged st fs fs :=
  ⟨h, fun _ => rfl⟩

theorem restaged_setInode {fs : Files} (h : Separate (Staged st) fs) (i : ℕ) (inode : Inode) :
    Restaged st fs (fs.setInode i inode) :=
  ⟨h.setInode i inode, fun _ => rfl⟩

theorem restaged_create {fs : Files} (h : Separate (Staged st) fs) (d : Digest) (inode : Inode) :
    Restaged st fs (fs.create (st.stagingPath d) inode) := by
  refine ⟨h.create _ _, fun d' => ?_⟩
  simp [Fs.create, Fs.setFile, Fs.setInode, Function.update_of_ne (st.stagingPath_ne d d').symm]

theorem restaged_unlink {fs fs' : Files} (h : Separate (Staged st) fs) {d : Digest}
    (hu : fs.unlink (st.stagingPath d) = some fs') : Restaged st fs fs' := by
  unfold Fs.unlink at hu
  obtain ⟨i, -, rfl⟩ := Option.map_eq_some_iff.1 hu
  refine ⟨h.unlink _, fun d' => ?_⟩
  simp [Fs.setFile, Function.update_of_ne (st.stagingPath_ne d d').symm]

theorem restaged_drop {fs : Files} (h : Separate (Staged st) fs) (d : Digest) (a : Answer) :
    Restaged st fs (drop fs (st.stagingPath d) a) := by
  unfold drop
  split_ifs
  · rcases hu : fs.unlink (st.stagingPath d) with _ | fs'
    · exact restaged_refl h
    · exact restaged_unlink h hu
  · exact restaged_refl h

/-- A file that was opened for writing is empty. -/
theorem restaged_openTruncate {fs fs' : Files} (h : Separate (Staged st) fs) {d : Digest}
    {mode dst : ℕ} (ho : fs.openTruncate privileged mode (st.stagingPath d) = some (fs', dst)) :
    Restaged st fs fs' ∧ fs'.file (st.stagingPath d) = some dst ∧ (fs'.inode dst).content = [] := by
  unfold Fs.openTruncate at ho
  rcases hf : fs.file (st.stagingPath d) with _ | i
  · rw [hf] at ho
    simp only [Option.some.injEq, Prod.mk.injEq] at ho
    obtain ⟨rfl, rfl⟩ := ho
    refine ⟨restaged_create h d _, ?_, ?_⟩
    · simp [Fs.create, Fs.setFile]
    · simp [Fs.create, Fs.setFile, Fs.setInode]
  · rw [hf] at ho
    simp only [] at ho
    split_ifs at ho
    simp only [Option.some.injEq, Prod.mk.injEq] at ho
    obtain ⟨rfl, rfl⟩ := ho
    refine ⟨restaged_setInode h _ _, hf, ?_⟩
    simp [Fs.setInode]

/-- A step before the commit. -/
theorem Following.step (h : Following b3 st content path before s) {s' : Ingest}
    (hpath : s'.path = s.path) (hp : s.phase.pending) (hr : Restaged st s.fs s'.fs)
    (hk : Known b3 st content before s'.fs s'.phase) : Following b3 st content path before s' where
  path_eq := hpath.trans h.path_eq
  separate := hr.separate
  kept _ d := (hr.object d).trans (h.kept hp d)
  known := hk

theorem cloneFailed_known (s : Ingest) (e : IoError) {d : Digest} (hd : blobDigest b3 content = d)
    (size : ℕ) (fs : Files) :
    Known b3 st content before fs (.placing d size (s.cloneFailed e).2) := by
  unfold cloneFailed
  split_ifs
  · exact ⟨hd, trivial⟩
  · exact ⟨hd, trivial⟩

theorem cloneFailed_fs (s : Ingest) (e : IoError) :
    (s.cloneFailed e).1.fs = s.fs ∧ (s.cloneFailed e).1.path = s.path := by
  unfold cloneFailed
  split_ifs <;> exact ⟨rfl, rfl⟩

/-- What is copied next. -/
theorem Copied.next {fs : Files} {d : Digest} {src dst offset : ℕ}
    (h : Copied st content fs d dst offset) (hsrc : (fs.inode src).content = content) (chunk : ℕ) :
    (readAt fs src offset chunk = [] → Copied st content fs d dst content.length) ∧
      Copied st content (fs.write dst offset (readAt fs src offset chunk)) d dst
        (offset + (readAt fs src offset chunk).length) := by
  unfold readAt
  rw [hsrc]
  constructor
  · intro hnil
    have hend : content.length ≤ offset := by
      by_contra hlt
      have hlen := congrArg List.length hnil
      rw [List.length_take, List.length_drop, List.length_nil] at hlen
      omega
    have : offset = content.length := le_antisymm h.within hend
    exact this ▸ h
  · refine ⟨h.file, ?_, ?_⟩
    · rw [List.length_take, List.length_drop]
      have := h.within
      omega
    · have hlen : (fs.inode dst).content.length = offset := by
        rw [h.content_eq, List.length_take, Nat.min_eq_left h.within]
      have hend := overwrite_end (fs.inode dst).content ((content.drop offset).take (max 1 chunk))
      rw [hlen, h.content_eq] at hend
      simp only [Fs.write, Fs.setInode, Function.update_self, h.content_eq, hend]
      exact take_append_take_drop _ _ _

/-- A clone that failed is turned into a copy, or into the streaming copy. -/
theorem Following.turnBack (h : Following b3 st content path before s) {fs' : Files} {d : Digest}
    {size : ℕ} (hp : s.phase.pending) (hr : Restaged st s.fs fs') (hd : blobDigest b3 content = d)
    (e : IoError) :
    Following b3 st content path before { (({ s with fs := fs' } : Ingest).cloneFailed e).1 with
      phase := .placing d size (({ s with fs := fs' } : Ingest).cloneFailed e).2 } := by
  obtain ⟨hfs, hpath⟩ := cloneFailed_fs { s with fs := fs' } e
  refine h.step hpath hp ?_ (cloneFailed_known _ e hd size _)
  rw [hfs]
  exact hr

/-- Every step that places the content keeps what is known of it. -/
theorem place_following (h : Following b3 st content path before s) {d : Digest} {size : ℕ}
    {p : Placing} (hp : s.phase = .placing d size p)
    (hsteady : ∀ fd ∈ s.phase.reads, (s.fs.inode fd).content = content) (a : Answer) :
    Following b3 st content path before (place st privileged s d size a p) := by
  have hpending : s.phase.pending := by rw [hp]; rfl
  have hknown := h.known
  rw [hp] at hknown hsteady
  obtain ⟨hd, hplacing⟩ := hknown
  have hstill : Restaged st s.fs s.fs := restaged_refl h.separate
  cases p with
  | check =>
    unfold place
    simp only []
    split_ifs with hthere
    · refine h.step rfl hpending hstill fun hnew => ?_
      rw [h.kept hpending d, hnew] at hthere
      exact absurd hthere.2 (by simp)
    · exact h.step rfl hpending hstill ⟨hd, trivial⟩
  | remove =>
    unfold place
    simp only []
    split
    · next fs' hfs =>
      have hr := restaged_unlink h.separate (Answer.result_ok hfs)
      refine h.step rfl hpending hr ⟨hd, ?_⟩
      split_ifs <;> trivial
    · refine h.step rfl hpending hstill ⟨hd, ?_⟩
      split_ifs <;> trivial
    · exact h.step rfl hpending hstill ⟨hd, trivial⟩
  | cloneOpen =>
    unfold place
    simp only []
    split
    · exact h.step rfl hpending hstill ⟨hd, trivial⟩
    · exact h.turnBack hpending hstill hd _
  | cloneCreate src =>
    unfold place
    simp only []
    split
    · exact h.turnBack hpending hstill hd _
    · split_ifs
      · exact h.turnBack hpending hstill hd _
      · refine h.step rfl hpending (restaged_create h.separate d _) ⟨hd, ?_⟩
        simp [Fs.create, Fs.setFile]
  | clone src dst =>
    unfold place
    simp only []
    split
    · exact h.step rfl hpending hstill ⟨hd, trivial⟩
    · refine h.step rfl hpending (restaged_setInode h.separate _ _) ⟨hd, dst, hplacing, le_rfl, ?_⟩
      rw [List.take_length]
      simp only [Fs.setInode, Function.update_self]
      exact hsteady src rfl
  | undo e =>
    unfold place
    simp only []
    exact h.turnBack hpending (restaged_drop h.separate d a) hd e
  | copyOpen =>
    unfold place
    simp only []
    split
    · exact h.step rfl hpending hstill ⟨hd, trivial⟩
    · exact h.step rfl hpending hstill ⟨hd, trivial⟩
  | copyCreate src mode =>
    unfold place
    simp only []
    split
    · next fs' dst hfs =>
      obtain ⟨hr, hfile, -⟩ := restaged_openTruncate h.separate (Answer.result_ok hfs)
      refine h.step rfl hpending ⟨hr.separate.setInode _ _, hr.object⟩
        ⟨hd, hfile, Nat.zero_le _, ?_⟩
      simp [Fs.setInode]
    · exact h.step rfl hpending hstill ⟨hd, trivial⟩
  | copy src dst offset =>
    have hnext := Copied.next hplacing (hsteady src rfl) a.chunk
    unfold place
    simp only []
    split
    · exact h.step rfl hpending hstill ⟨hd, trivial⟩
    · split_ifs with hnil
      · exact h.step rfl hpending hstill ⟨hd, dst, hnext.1 hnil⟩
      · exact h.step rfl hpending (restaged_setInode h.separate _ _) ⟨hd, hnext.2⟩
  | discard =>
    unfold place
    simp only []
    exact h.step rfl hpending (restaged_drop h.separate d a) ⟨hd, trivial⟩
  | reopen =>
    unfold place
    simp only []
    split
    · exact h.step rfl hpending hstill ⟨hd, trivial⟩
    · exact h.step rfl hpending hstill trivial
  | create src =>
    unfold place
    simp only []
    split
    · next fs' dst hfs =>
      obtain ⟨hr, hfile, hempty⟩ := restaged_openTruncate h.separate (Answer.result_ok hfs)
      exact h.step rfl hpending hr ⟨hd, hfile, Nat.zero_le _, hempty⟩
    · exact h.step rfl hpending hstill trivial
  | stream src dst offset =>
    have hnext := Copied.next hplacing (hsteady src rfl) a.chunk
    unfold place
    simp only []
    split
    · exact h.step rfl hpending hstill trivial
    · split_ifs with hnil hsync
      · exact h.step rfl hpending hstill ⟨hd, dst, hnext.1 hnil⟩
      · exact h.step rfl hpending hstill ⟨hd, dst, hnext.1 hnil⟩
      · exact h.step rfl hpending (restaged_setInode h.separate _ _) ⟨hd, hnext.2⟩

/-- What is staged stays while modes and directories change. -/
theorem Copied.quiet {fs fs' : Files} {d : Digest} {dst offset : ℕ}
    (h : Copied st content fs d dst offset) (hq : Quiet fs fs') :
    Copied st content fs' d dst offset :=
  ⟨by rw [hq.file]; exact h.file, h.within, by rw [hq.content]; exact h.content_eq⟩

theorem restaged_quiet {fs fs' : Files} (h : Separate (Staged st) fs) (hq : Quiet fs fs') :
    Restaged st fs fs' :=
  ⟨h.of_same hq.file hq.next.ge, fun d => by rw [hq.file]⟩

/-- The rename puts the staged content in its place, under that name alone. -/
theorem stored_of_rename {fs fs' : Files} (hsep : Separate (Staged st) fs) {d : Digest} {dst : ℕ}
    (hd : blobDigest b3 content = d) (hc : Copied st content fs d dst content.length)
    (hr : fs.rename (st.stagingPath d) (st.objectPath d) = some fs') :
    Separate (Staged st) fs' ∧ Stored b3 st fs' d dst := by
  unfold Fs.rename at hr
  rw [hc.file, Option.map_some, Option.some.injEq] at hr
  subst hr
  refine ⟨hsep.rename ⟨d, rfl⟩ (objectPath_not_staged d) hc.file, ?_, ?_, fun q hq => ?_⟩
  · simp [Fs.setFile]
  · show blobDigest b3 (fs.inode dst).content = d
    rw [hc.content_eq, List.take_length, hd]
  · by_contra hne
    simp only [Fs.setFile, Function.update_of_ne hne, Function.update_apply] at hq
    split_ifs at hq with hqs
    exact hqs (hsep.sole ⟨d, rfl⟩ hc.file hq)

/-- `seal_and_commit`: what stands in place at the end is what was staged. -/
theorem finish_following (h : Following b3 st content path before s) {d : Digest} {size : ℕ}
    {p : Phase} (hp : s.phase = .finish d size p) {a : Answer} {s' : Ingest}
    (hm : move b3 st privileged s a = some s') : Following b3 st content path before s' := by
  have hknown := h.known
  have hpending (hq : (FilePhase.finish d size p).pending) : s.phase.pending := by rwa [hp]
  have hstill : Restaged st s.fs s.fs := restaged_refl h.separate
  rw [hp] at hknown
  unfold move at hm
  simp only [hp, Option.bind_eq_bind] at hm
  obtain ⟨⟨fs', p'⟩, hadv, hm⟩ := Option.bind_eq_some_iff.1 hm
  cases p with
  | check => exact hknown.elim
  | create => exact hknown.elim
  | write => exact hknown.elim
  | sync =>
    simp only [advance] at hadv
    split at hadv <;> cases hadv <;> cases hm
    · exact h.step rfl (hpending rfl) hstill trivial
    · exact h.step rfl (hpending rfl) hstill hknown
  | stat =>
    simp only [advance] at hadv
    split at hadv <;> cases hadv <;> cases hm
    · exact h.step rfl (hpending rfl) hstill trivial
    · exact h.step rfl (hpending rfl) hstill hknown
  | chmod =>
    simp only [advance] at hadv
    split at hadv
    · cases hadv
      cases hm
      exact h.step rfl (hpending rfl) hstill trivial
    · next hset =>
      cases hadv
      cases hm
      have hq := setMode_quiet (Answer.result_ok hset)
      obtain ⟨hd, dst, hc⟩ := hknown
      exact h.step rfl (hpending rfl) (restaged_quiet h.separate hq) ⟨hd, dst, hc.quiet hq⟩
  | fanout =>
    simp only [advance] at hadv
    split at hadv <;> cases hadv <;> cases hm
    · exact h.step rfl (hpending rfl) hstill trivial
    · have hq : Quiet s.fs (s.fs.mkdir (st.fanoutPath d)) := ⟨rfl, rfl, fun _ => rfl⟩
      obtain ⟨hd, dst, hc⟩ := hknown
      exact h.step rfl (hpending rfl) (restaged_quiet h.separate hq) ⟨hd, dst, hc.quiet hq⟩
  | commit =>
    simp only [advance] at hadv
    split at hadv
    · cases hadv
      cases hm
      exact h.step rfl (hpending rfl) hstill trivial
    · next hren =>
      have hren := Answer.result_ok hren
      split_ifs at hren
      obtain ⟨hd, dst, hc⟩ := hknown
      obtain ⟨hsep, hstored⟩ := stored_of_rename h.separate hd hc hren
      cases hadv
      split_ifs at hm
      · cases hm
        exact ⟨h.path_eq, hsep, by simp [FilePhase.pending], dst, hstored⟩
      · cases hm
        exact ⟨h.path_eq, hsep, by simp [FilePhase.pending], fun _ => ⟨dst, hstored⟩⟩
  | cleanup e =>
    simp only [advance] at hadv
    cases hadv
    cases hm
    exact h.step rfl (hpending rfl) (restaged_drop h.separate d a) trivial
  | syncDir =>
    simp only [advance] at hadv
    cases hadv
    cases hm
    exact ⟨h.path_eq, h.separate, by simp [FilePhase.pending], fun _ => hknown⟩
  | done r => cases hadv

theorem prefix_append_readAt {fs : Files} {fd : ℕ} {fed : List (List UInt8)} (chunk : ℕ)
    (hfed : fed.flatten <+: content) (hfd : (fs.inode fd).content = content) :
    (fed ++ [readAt fs fd fed.flatten.length chunk]).flatten <+: content := by
  obtain ⟨rest, rfl⟩ := hfed
  unfold readAt
  rw [hfd, List.drop_left, List.flatten_append, List.flatten_singleton]
  exact (List.prefix_append_right_inj _).2 (List.take_prefix _ _)

/-- Both ways to hash name what was read. -/
theorem hashFile_read (fed : List (List UInt8)) (size : ℕ) :
    hashFile b3 ⟨true, fed.flatten, fed⟩ size = blobDigest b3 fed.flatten := by
  unfold hashFile
  split_ifs
  · rfl
  · rw [Hasher.foldl_update]
    rfl

theorem flatten_of_readAt_nil {fs : Files} {fd chunk : ℕ} {fed : List (List UInt8)}
    (hfed : fed.flatten <+: content) (hfd : (fs.inode fd).content = content)
    (hnil : readAt fs fd fed.flatten.length chunk = []) : fed.flatten = content := by
  unfold readAt at hnil
  rw [hfd] at hnil
  refine hfed.eq_of_length_le ?_
  have hlen := congrArg List.length hnil
  rw [List.length_take, List.length_drop, List.length_nil] at hlen
  omega

/-- Every step of the call keeps what is known. -/
theorem move_following (h : Following b3 st content path before s) {a : Answer} {s' : Ingest}
    (hsteady : Steady content s (.move a)) (hm : move b3 st privileged s a = some s') :
    Following b3 st content path before s' := by
  have hknown := h.known
  have hstill : Restaged st s.fs s.fs := restaged_refl h.separate
  rcases hp : s.phase with _ | size | ⟨size, fd, fed⟩ | ⟨d, size, p⟩ | ⟨d, size, p⟩ | r
  · have hpending : s.phase.pending := by rw [hp]; rfl
    simp only [move, hp] at hm
    split at hm
    · cases hm
      exact h.step rfl hpending hstill trivial
    · cases hm
      exact h.step rfl hpending hstill trivial
    · split_ifs at hm <;> cases hm
      · exact h.step rfl hpending hstill trivial
      · exact h.step rfl hpending hstill trivial
  · have hpending : s.phase.pending := by rw [hp]; rfl
    simp only [move, hp] at hm
    split at hm <;> cases hm
    · exact h.step rfl hpending hstill (List.nil_prefix)
    · exact h.step rfl hpending hstill trivial
  · have hpending : s.phase.pending := by rw [hp]; rfl
    have hfd := hsteady fd (by rw [hp]; rfl)
    rw [hp] at hknown
    simp only [move, hp] at hm
    split at hm
    · cases hm
      exact h.step rfl hpending hstill trivial
    · split_ifs at hm with hnil <;> cases hm
      · refine h.step rfl hpending hstill ⟨?_, trivial⟩
        rw [hashFile_read, flatten_of_readAt_nil hknown hfd hnil]
      · exact h.step rfl hpending hstill (prefix_append_readAt a.chunk hknown hfd)
  · simp only [move, hp] at hm
    cases hm
    exact place_following h hp hsteady a
  · exact finish_following h hp hm
  · simp only [move, hp] at hm
    cases hm

theorem turn_following (hpath : Outside st path) (h : Following b3 st content path before s)
    {t : Turn} {s' : Ingest} (hsteady : Steady content s t) (ht : turn b3 st privileged s t = some s') :
    Following b3 st content path before s' := by
  cases t with
  | rewrite content' =>
    obtain ⟨i, hi, rfl⟩ := Option.map_eq_some_iff.1 ht
    rw [h.path_eq] at hi
    exact h.rewritten hpath (rewritten_setInode hi _) (h.separate.setInode i _)
  | replace content' mode =>
    cases ht
    have hr : Rewritten path s.fs (s.fs.create s.path ⟨content', mode⟩) := by
      rw [h.path_eq]
      exact rewritten_create _
    exact h.rewritten hpath hr (h.separate.create s.path _)
  | move a => exact move_following h hsteady ht

/-- If the file holds one content whenever the call reads from it, the object that the call creates
has content that its digest names. -/
theorem put_file_names_content {caps : Capabilities} (hpath : Outside st path)
    (hsep : Separate (Staged st) before) {turns : List Turn}
    (hsteady : Runs.AllSteps (turn b3 st privileged) (Steady content) ⟨path, before, caps, .lstat⟩
      turns)
    (hv : Runs.Visits (turn b3 st privileged) ⟨path, before, caps, .lstat⟩ turns s) {d : Digest}
    {size : ℕ} (hdone : s.phase = .done (.ok (d, size)))
    (hnew : before.file (st.objectPath d) = none) :
    ∃ i, s.fs.file (st.objectPath d) = some i ∧ blobDigest b3 (s.fs.inode i).content = d := by
  have hstart : Following b3 st content path before ⟨path, before, caps, .lstat⟩ :=
    ⟨rfl, hsep, fun _ _ => rfl, trivial⟩
  have h := Runs.visited_keeps (fun _ _ _ hI hok hstep => turn_following hpath hI hok hstep) hstart
    hsteady hv
  have hknown := h.known
  rw [hdone] at hknown
  obtain ⟨i, hi⟩ := hknown hnew
  exact ⟨i, hi.file, hi.names⟩

end Call

section Sample

/-- A file of one byte outside a store that was just opened. -/
def oneByte : Files := emptyFiles.create ["work", "f"] ⟨[97], createMode⟩

def begun : Ingest := ⟨["work", "f"], oneByte, ⟨some false⟩, .lstat⟩

/-- The system does what it is asked. -/
def served : Ingest.Turn := .move ⟨none, 4096⟩

/-- The file is read for its digest, rewritten, and then copied. -/
def rewrittenTurns : List Ingest.Turn :=
  List.replicate 4 served ++ .rewrite [98] :: List.replicate 10 served

/-- The digest and the content of the object that a call has created. -/
def outcome (s : Ingest) : Option (Digest × List UInt8) :=
  match s.phase with
  | .done (.ok (d, _)) =>
    (s.fs.file (sampleStore.objectPath d)).map fun i => (d, (s.fs.inode i).content)
  | _ => none

theorem begun_runs :
    (Runs.exec (Ingest.turn sampleBlake3 sampleStore false) begun rewrittenTurns).bind outcome
        = some (blobDigest sampleBlake3 [97], [98]) ∧
      (Runs.exec (Ingest.turn sampleBlake3 sampleStore false) begun
        (List.replicate 14 served)).bind outcome = some (blobDigest sampleBlake3 [97], [97]) ∧
      Runs.AllSteps (Ingest.turn sampleBlake3 sampleStore false) (Steady [97]) begun
        (List.replicate 14 served) ∧
      oneByte.file (sampleStore.objectPath (blobDigest sampleBlake3 [97])) = none := by
  decide +kernel

theorem outcome_eq_some {s : Ingest} {d : Digest} {bytes : List UInt8}
    (h : outcome s = some (d, bytes)) : ∃ size i, s.phase = .done (.ok (d, size)) ∧
      s.fs.file (sampleStore.objectPath d) = some i ∧ (s.fs.inode i).content = bytes := by
  unfold outcome at h
  split at h
  · next d' size hp =>
    obtain ⟨i, hi, heq⟩ := Option.map_eq_some_iff.1 h
    obtain ⟨rfl, rfl⟩ := Prod.mk.inj heq
    exact ⟨size, i, hp, hi, rfl⟩
  · cases h

/-- A rewrite between the two readings: the object does not hold what its name says. -/
theorem object_misnamed : ∃ s d size i,
    Runs.exec (Ingest.turn sampleBlake3 sampleStore false) begun rewrittenTurns = some s ∧
      s.phase = .done (.ok (d, size)) ∧ oneByte.file (sampleStore.objectPath d) = none ∧
      s.fs.file (sampleStore.objectPath d) = some i ∧
      blobDigest sampleBlake3 (s.fs.inode i).content ≠ d := by
  obtain ⟨s, hs, hout⟩ := Option.bind_eq_some_iff.1 begun_runs.1
  obtain ⟨size, i, hp, hi, hcontent⟩ := outcome_eq_some hout
  refine ⟨s, _, size, i, hs, hp, begun_runs.2.2.2, hi, ?_⟩
  rw [hcontent]
  intro h
  have htwo := congrArg (fun d : Digest => d.bytes.head?) h
  cases htwo

/-- A file that is left alone from start to end. -/
theorem untouched_named : ∃ s size i,
    Runs.exec (Ingest.turn sampleBlake3 sampleStore false) begun (List.replicate 14 served) = some s ∧
      s.phase = .done (.ok (blobDigest sampleBlake3 [97], size)) ∧
      s.fs.file (sampleStore.objectPath (blobDigest sampleBlake3 [97])) = some i ∧
      blobDigest sampleBlake3 (s.fs.inode i).content = blobDigest sampleBlake3 [97] := by
  obtain ⟨s, hs, hout⟩ := Option.bind_eq_some_iff.1 begun_runs.2.1
  obtain ⟨size, i, hp, -, -⟩ := outcome_eq_some hout
  have hpath : Outside sampleStore ["work", "f"] := by
    intro d
    have hroot : sampleStore.root.head? = some "/" := by decide
    refine ⟨fun h => ?_, fun h => ?_⟩
    · rw [stagingPath_below] at h
      have hhead := congrArg List.head? h
      rw [List.head?_append, hroot] at hhead
      simp at hhead
    · rw [objectPath_below] at h
      have hhead := congrArg List.head? h
      rw [List.head?_append, hroot] at hhead
      simp at hhead
  have hsettled : Settled sampleBlake3 sampleStore emptyFiles := emptyFiles_settled
  have hsep : Separate (Staged sampleStore) oneByte := hsettled.separate.create _ _
  obtain ⟨j, hj, hnames⟩ := put_file_names_content hpath hsep begun_runs.2.2.1
    ⟨_, [], (List.append_nil _).symm, hs⟩ hp begun_runs.2.2.2
  exact ⟨s, size, j, hs, hp, hj, hnames⟩

end Sample

end Ingest

end Jetrun
