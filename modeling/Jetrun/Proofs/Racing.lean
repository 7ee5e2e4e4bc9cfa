import Jetrun.Proofs.PutFile
import Jetrun.Racing

/-!
# Inserts that race for one object

While no insert touches a staging path that another works on, every insert gets through: what it
finds at its staging path is what it has put there. Each of its system calls brings it nearer to its
end, so it returns, and it returns the digest of what it was given.

Two inserts of one object may share the staging path. The first one renames the file of both into
place, and the second finds it gone.
-/

namespace Jetrun

namespace Puts

open Inodes ObjectStore Ingest

variable {b3 : Blake3} {st : ObjectStore} {privileged : Bool}

section Touches

/-- Nothing but the staging file and the object of one digest changed, and no file with a name of
its own. -/
structure Touches (st : ObjectStore) (d : Digest) (fs fs' : Files) : Prop where
  separate : Separate (Staged st) fs'
  file : ∀ {q}, q ≠ st.stagingPath d → q ≠ st.objectPath d → fs'.file q = fs.file q
  dir : ∀ {q}, fs.dir q = true → fs'.dir q = true
  inode : ∀ {i q}, q ≠ st.stagingPath d → fs.file q = some i → fs'.inode i = fs.inode i

variable {fs : Files} {d : Digest} {i : ℕ} {inode : Inode}

theorem touches_refl (h : Separate (Staged st) fs) : Touches st d fs fs :=
  ⟨h, fun _ _ => rfl, fun h => h, fun _ _ => rfl⟩

theorem touches_setInode (h : Separate (Staged st) fs) (hi : fs.file (st.stagingPath d) = some i) :
    Touches st d fs (fs.setInode i inode) := by
  refine ⟨h.setInode i inode, fun _ _ => rfl, fun h => h, fun {j q} hq hj => ?_⟩
  have hne : j ≠ i := fun hji => hq (h.sole ⟨d, rfl⟩ hi (hji ▸ hj))
  simp [Fs.setInode, Function.update_of_ne hne]

theorem touches_create (h : Separate (Staged st) fs) :
    Touches st d fs (fs.create (st.stagingPath d) inode) := by
  refine ⟨h.create _ _, fun hq _ => ?_, fun h => h, fun {j q} _ hj => ?_⟩
  · simp [Fs.create, Fs.setFile, Fs.setInode, Function.update_of_ne hq]
  · have hne : j ≠ fs.next := (h.lt_next hj).ne
    simp [Fs.create, Fs.setFile, Fs.setInode, Function.update_of_ne hne]

theorem touches_unlink (h : Separate (Staged st) fs) :
    Touches st d fs (fs.setFile (st.stagingPath d) none) := by
  refine ⟨h.unlink _, fun hq _ => ?_, fun h => h, fun _ _ => rfl⟩
  simp [Fs.setFile, Function.update_of_ne hq]

/-- Once it is removed, if it was there, the path of the staging file is free. -/
theorem unlink_frees (h : Separate (Staged st) fs) :
    ((fs.unlink (st.stagingPath d)).getD fs).file (st.stagingPath d) = none ∧
      Touches st d fs ((fs.unlink (st.stagingPath d)).getD fs) := by
  unfold Fs.unlink
  rcases hfile : fs.file (st.stagingPath d) with _ | j
  · exact ⟨hfile, touches_refl h⟩
  · exact ⟨by simp [Fs.setFile], touches_unlink h⟩

theorem touches_mkdir (h : Separate (Staged st) fs) (p : Path) : Touches st d fs (fs.mkdir p) := by
  refine ⟨h.of_same rfl le_rfl, fun _ _ => rfl, fun {q} hq => ?_, fun _ _ => rfl⟩
  simp only [Fs.mkdir, Function.update_apply]
  split_ifs
  · rfl
  · exact hq

theorem touches_rename (h : Separate (Staged st) fs) (hi : fs.file (st.stagingPath d) = some i) :
    Touches st d fs ((fs.setFile (st.stagingPath d) none).setFile (st.objectPath d) (some i)) := by
  refine ⟨h.rename ⟨d, rfl⟩ (objectPath_not_staged d) hi, fun hq hq' => ?_, fun h => h,
    fun _ _ => rfl⟩
  simp [Fs.setFile, Function.update_of_ne hq, Function.update_of_ne hq']

end Touches

section Seal

variable {fs : Files} {d : Digest}

/-- What an insert needs to find, from the content's being written on. -/
def SealOk (st : ObjectStore) (fs : Files) (d : Digest) : Phase → Prop
  | .sync | .stat | .chmod | .fanout => (fs.file (st.stagingPath d)).isSome
  | .commit => (fs.file (st.stagingPath d)).isSome ∧ fs.dir (st.fanoutPath d) = true
  | .syncDir => True
  | .done r => r = .ok d
  | _ => False

def sealRank : Phase → ℕ
  | .sync => 6
  | .stat => 5
  | .chmod => 4
  | .fanout => 3
  | .commit => 2
  | .cleanup _ | .syncDir => 1
  | _ => 0

/-- What one step of `seal_and_commit` comes to if nothing fails. -/
structure Sealing (st : ObjectStore) (d : Digest) (fs : Files) (p : Phase) (fs' : Files)
    (p' : Phase) : Prop where
  touches : Touches st d fs fs'
  ok : SealOk st fs' d p'
  rank : sealRank p' < sealRank p
  flies : p'.inFlight = true → p.inFlight = true
  lands : p'.inFlight = false → p.inFlight = true → fs'.file (st.stagingPath d) = none
  rests : p.inFlight = false → fs' = fs

/-- A staging file that is there is renamed into place at the end. -/
theorem seal_step {content : List UInt8} {p : Phase} {a : Answer} (hsep : Separate (Staged st) fs)
    (h : SealOk st fs d p) (hnot : ∀ r, p ≠ .done r) (hf : a.fault = none) :
    ∃ fs' p', st.advance privileged ⟨d, content, p⟩ fs a = some (fs', p') ∧
      Sealing st d fs p fs' p' := by
  have hsame : Touches st d fs fs := touches_refl hsep
  have hyes : true ≠ false := Bool.false_ne_true.symm
  have hno : false ≠ true := Bool.false_ne_true
  cases p with
  | check => exact h.elim
  | create => exact h.elim
  | write => exact h.elim
  | cleanup e => exact h.elim
  | done r => exact absurd rfl (hnot r)
  | sync =>
    refine ⟨fs, .stat, ?_, hsame, h, by decide, fun _ => rfl, (absurd · hyes), (absurd · hyes)⟩
    simp only [ObjectStore.advance, hf]
  | stat =>
    obtain ⟨i, hi⟩ := Option.isSome_iff_exists.1 h
    refine ⟨fs, .chmod, ?_, hsame, h, by decide, fun _ => rfl, (absurd · hyes), (absurd · hyes)⟩
    simp only [ObjectStore.advance, Answer.result, hf, hi]
  | chmod =>
    obtain ⟨i, hi⟩ := Option.isSome_iff_exists.1 h
    refine ⟨fs.setInode i ⟨(fs.inode i).content, objectMode⟩, .fanout, ?_, touches_setInode hsep hi,
      h, by decide, fun _ => rfl, (absurd · hyes), (absurd · hyes)⟩
    simp only [ObjectStore.advance, Answer.result, hf, Fs.setMode, hi, Option.map_some]
  | fanout =>
    refine ⟨fs.mkdir (st.fanoutPath d), .commit, ?_, touches_mkdir hsep _, ⟨h, ?_⟩, by decide,
      fun _ => rfl, (absurd · hyes), (absurd · hyes)⟩
    · simp only [ObjectStore.advance, hf]
    · simp [Fs.mkdir]
  | commit =>
    obtain ⟨hfile, hdir⟩ := h
    obtain ⟨i, hi⟩ := Option.isSome_iff_exists.1 hfile
    have hgone : ((fs.setFile (st.stagingPath d) none).setFile (st.objectPath d) (some i)).file
        (st.stagingPath d) = none := by
      simp [Fs.setFile, Function.update_of_ne (st.stagingPath_ne d d)]
    by_cases hsynced : st.durability = .synced
    · refine ⟨_, .syncDir, ?_, touches_rename hsep hi, trivial, by decide, (absurd · hno),
        fun _ _ => hgone, (absurd · hyes)⟩
      simp only [ObjectStore.advance, Answer.result, hf, hdir, Fs.rename, hi, Option.map_some,
        if_pos hsynced, if_true]
    · refine ⟨_, .done (.ok d), ?_, touches_rename hsep hi, rfl, Nat.succ_pos _, (absurd · hno),
        fun _ _ => hgone, (absurd · hyes)⟩
      simp only [ObjectStore.advance, Answer.result, hf, hdir, Fs.rename, hi, Option.map_some,
        if_neg hsynced, if_true]
  | syncDir =>
    exact ⟨fs, .done (.ok d), rfl, hsame, rfl, Nat.succ_pos _, (absurd · hno), fun _ => (absurd · hno),
      fun _ => rfl⟩

end Seal

section Invariant

/-- A path at which a file can be opened for writing. -/
def Fresh (privileged : Bool) (fs : Files) (p : Path) : Prop :=
  fs.file p = none ∨ ∃ i, fs.file p = some i ∧ (privileged || (fs.inode i).writable) = true

/-- What a put of content needs to find. -/
def ContentOk (st : ObjectStore) (fs : Files) (c : Call) : Prop :=
  match c.phase with
  | .check | .create => True
  | .write fd _ => fs.file (st.stagingPath c.digest) = some fd
  | p => SealOk st fs c.digest p

/-- What `put_file` of this content needs to find, with `src` for its file. -/
def FileOk (st : ObjectStore) (fs : Files) (d : Digest) (src : ℕ) (content : List UInt8) :
    FilePhase → Prop
  | .lstat | .hashOpen _ => True
  | .hashRead _ fd fed => fd = src ∧ fed.flatten <+: content
  | .placing d' _ p => d' = d ∧ match p with
    | .check | .remove => True
    | .cloneOpen | .copyOpen => fs.file (st.stagingPath d) = none
    | .cloneCreate fd | .copyCreate fd _ => fd = src ∧ fs.file (st.stagingPath d) = none
    | .clone fd dst | .copy fd dst _ => fd = src ∧ fs.file (st.stagingPath d) = some dst
    | .undo e => Link.isUnsupported e = true
    | _ => False
  | .finish d' _ p => d' = d ∧ SealOk st fs d p ∧ ∀ r, p ≠ .done r
  | .done r => r.map Prod.fst = .ok d

def PutOk (b3 : Blake3) (st : ObjectStore) (fs₀ fs : Files) : Insert → Put → Prop
  | .content r, .content c => c.digest = r.digest b3 ∧ ContentOk st fs c
  | .file path, .file path' phase => path' = path ∧ Outside st path ∧ ∃ i,
    fs₀.file path = some i ∧ FileOk st fs (blobDigest b3 (fs₀.inode i).content) i
      (fs₀.inode i).content phase
  | _, _ => False

/-- What is outside of the store is as it was at first. -/
def Outer (st : ObjectStore) (fs₀ fs : Files) : Prop :=
  ∀ q, Outside st q → fs.file q = fs₀.file q ∧
    ∀ i, fs₀.file q = some i → fs.inode i = fs₀.inode i

end Invariant

section Rank

def contentRank (c : Call) : ℕ :=
  match c.phase with
  | .check => c.content.length + 9
  | .create => c.content.length + 8
  | .write _ offset => c.content.length - offset + 7
  | p => sealRank p

def placingRank (n : ℕ) : Placing → ℕ
  | .check => 2 * n + 19
  | .remove => 2 * n + 18
  | .cloneOpen => 2 * n + 17
  | .cloneCreate _ => 2 * n + 16
  | .clone .. => 2 * n + 15
  | .undo _ => 2 * n + 14
  | .copyOpen => 2 * n + 13
  | .copyCreate .. => 2 * n + 12
  | .copy _ _ offset => n - offset + (n + 11)
  | .discard => n + 10
  | .reopen => n + 9
  | .create _ => n + 8
  | .stream _ _ offset => n - offset + 7

def fileRank (n : ℕ) : FilePhase → ℕ
  | .lstat => 3 * n + 22
  | .hashOpen _ => 3 * n + 21
  | .hashRead _ _ fed => n - fed.flatten.length + (2 * n + 20)
  | .placing _ _ p => placingRank n p
  | .finish _ _ p => sealRank p
  | .done _ => 0

/-- How many system calls are left to an insert at most, `n` being the length of its file. -/
def rank (n : ℕ) : Put → ℕ
  | .content c => contentRank c
  | .file _ phase => fileRank n phase

end Rank

section Content

variable {fs : Files}

/-- What one system call of an insert comes to if nothing fails and no other works on its staging
path. -/
structure Stepped (privileged : Bool) (st : ObjectStore) (d : Digest) (n : ℕ) (fs : Files) (p : Put)
    (fs' : Files) (p' : Put) : Prop where
  touches : Touches st d fs fs'
  rank : rank n p' < rank n p
  holds : ∀ d', p'.holds = some d' → p.holds = some d' ∨ p.enters = some d'
  rests : p.holds = none → p.enters = none → fs' = fs
  free : p'.holds = none → (p.holds = none → Fresh privileged fs (st.stagingPath d)) →
    Fresh privileged fs' (st.stagingPath d)

theorem contentOk_seal {c : Call} {p : Phase} (h : SealOk st fs c.digest p) :
    ContentOk st fs { c with phase := p } := by
  unfold ContentOk
  cases p with
  | write => exact h.elim
  | check => trivial
  | create => trivial
  | _ => exact h

theorem contentRank_seal {c : Call} {p : Phase} (h : SealOk st fs c.digest p) :
    contentRank { c with phase := p } = sealRank p := by
  unfold contentRank
  cases p with
  | write => exact h.elim
  | check => exact h.elim
  | create => exact h.elim
  | _ => rfl

theorem holds_content {c : Call} (h : c.phase.inFlight = true) : (Put.content c).holds = some c.digest :=
  if_pos h

theorem inFlight_of_holds {c : Call} {d : Digest} (h : (Put.content c).holds = some d) :
    c.phase.inFlight = true ∧ d = c.digest := by
  unfold Put.holds at h
  simp only [] at h
  split_ifs at h with hfly
  exact ⟨hfly, (Option.some.inj h).symm⟩

theorem not_inFlight_of_holds {c : Call} (h : (Put.content c).holds = none) :
    c.phase.inFlight = false := by
  unfold Put.holds at h
  simp only [] at h
  split_ifs at h with hfly
  simpa using hfly

/-- A put of content that has been written goes on as `seal_and_commit` does. -/
theorem content_seal {c : Call} {a : Answer} {n : ℕ} (hsep : Separate (Staged st) fs)
    (h : SealOk st fs c.digest c.phase) (hnot : ∀ r, c.phase ≠ .done r) (hf : a.fault = none) :
    ∃ fs' p', st.advance privileged c fs a = some (fs', p') ∧ ContentOk st fs' { c with phase := p' } ∧
      Stepped privileged st c.digest n fs (.content c) fs' (.content { c with phase := p' }) := by
  obtain ⟨fs', p', hadv, hseal⟩ := seal_step hsep h
    hnot hf
  refine ⟨fs', p', hadv, contentOk_seal hseal.ok, hseal.touches, ?_, fun d' hd' => .inl ?_,
    fun hnone _ => hseal.rests (not_inFlight_of_holds hnone), fun hnone hfree => ?_⟩
  · show contentRank _ < contentRank c
    rw [contentRank_seal hseal.ok, show contentRank c = sealRank c.phase from contentRank_seal h]
    exact hseal.rank
  · obtain ⟨hfly, rfl⟩ := inFlight_of_holds hd'
    exact holds_content (hseal.flies hfly)
  · have hland : p'.inFlight = false := not_inFlight_of_holds hnone
    by_cases hfly : c.phase.inFlight = true
    · exact .inl (hseal.lands hland hfly)
    · rw [Bool.not_eq_true] at hfly
      rw [hseal.rests hfly]
      exact hfree (if_neg (by simp [hfly]))

/-- A step that leaves the files alone and does not come to hold the staging path. -/
theorem stepped_idle {d : Digest} {n : ℕ} {p p' : Put} (hsep : Separate (Staged st) fs)
    (hrank : rank n p' < rank n p) (hp : p.holds = none) (hp' : p'.holds = none) :
    Stepped privileged st d n fs p fs p' where
  touches := touches_refl hsep
  rank := hrank
  holds d' hd' := by
    rw [hp'] at hd'
    cases hd'
  rests _ _ := rfl
  free _ hfree := hfree hp

/-- A step that keeps or comes to hold the staging path. -/
theorem stepped_busy {d : Digest} {n : ℕ} {fs' : Files} {p p' : Put} (ht : Touches st d fs fs')
    (hrank : rank n p' < rank n p) (hp' : p'.holds = some d)
    (hp : p.holds = some d ∨ p.enters = some d) : Stepped privileged st d n fs p fs' p' where
  touches := ht
  rank := hrank
  holds d' hd' := by
    rw [hp', Option.some.injEq] at hd'
    exact hd' ▸ hp
  rests hnone hnone' := by
    rw [hnone, hnone'] at hp
    rcases hp with hp | hp <;> cases hp
  free hnone := by
    rw [hp'] at hnone
    cases hnone

theorem content_step {c : Call} {a : Answer} {n : ℕ} (hsep : Separate (Staged st) fs)
    (h : ContentOk st fs c) (hnot : ∀ r, c.phase ≠ .done r) (hf : a.fault = none)
    (hchunk : 0 < a.chunk)
    (hfresh : c.phase = .create → Fresh privileged fs (st.stagingPath c.digest)) :
    ∃ fs' p', st.advance privileged c fs a = some (fs', p') ∧ ContentOk st fs' { c with phase := p' } ∧
      Stepped privileged st c.digest n fs (.content c) fs' (.content { c with phase := p' }) := by
  rcases c with ⟨d, content, phase⟩
  cases phase with
  | check =>
    by_cases hthere : (fs.file (st.objectPath d)).isSome = true
    · refine ⟨fs, .done (.ok d), ?_, rfl, stepped_idle hsep (Nat.succ_pos _) rfl rfl⟩
      simp only [ObjectStore.advance, hf, hthere, and_self, if_true]
    · refine ⟨fs, .create, ?_, trivial, stepped_idle hsep (Nat.lt_succ_self _) rfl rfl⟩
      simp only [ObjectStore.advance, hf, hthere, and_false, if_false, Bool.false_eq_true]
  | create =>
    rcases hfresh rfl with hnone | ⟨i, hi, hw⟩
    · have hnone' : fs.file (st.stagingPath d) = none := hnone
      refine ⟨fs.create (st.stagingPath d) ⟨[], createMode⟩, .write fs.next 0, ?_, ?_,
        stepped_busy (touches_create hsep) ?_ rfl (.inr rfl)⟩
      · simp only [ObjectStore.advance, Answer.result, hf, Fs.openTruncate, hnone']
      · show Fs.file (Fs.create _ _ _) _ = _
        simp [Fs.create, Fs.setFile]
      · show content.length - 0 + 7 < content.length + 8
        omega
    · have hi' : fs.file (st.stagingPath d) = some i := hi
      refine ⟨fs.setInode i ⟨[], (fs.inode i).mode⟩, .write i 0, ?_, hi',
        stepped_busy (touches_setInode hsep hi') ?_ rfl (.inr rfl)⟩
      · simp only [ObjectStore.advance, Answer.result, hf, Fs.openTruncate, hi', if_pos hw]
      · show content.length - 0 + 7 < content.length + 8
        omega
  | write fd offset =>
    have hfd : fs.file (st.stagingPath d) = some fd := h
    by_cases hmore : offset < content.length
    · have hlen : ((content.drop offset).take a.chunk).length ≠ 0 := by
        rw [List.length_take, List.length_drop]
        omega
      have hne : (content.drop offset).take a.chunk ≠ [] := fun hnil => hlen (by rw [hnil]; rfl)
      refine ⟨fs.write fd offset ((content.drop offset).take a.chunk),
        .write fd (offset + ((content.drop offset).take a.chunk).length), ?_, hfd,
        stepped_busy (touches_setInode hsep hfd) ?_ rfl (.inl rfl)⟩
      · simp only [ObjectStore.advance, if_pos hmore, hf, if_neg hne]
      · show content.length - (offset + _) + 7 < content.length - offset + 7
        omega
    · have hthere : (fs.file (st.stagingPath d)).isSome = true := by rw [hfd]; rfl
      by_cases hsynced : st.durability = .synced
      · refine ⟨fs, .sync, ?_, hthere, stepped_busy (touches_refl hsep) ?_ rfl (.inl rfl)⟩
        · simp only [ObjectStore.advance, if_neg hmore, if_pos hsynced]
        · show 6 < content.length - offset + 7
          omega
      · refine ⟨fs, .stat, ?_, hthere, stepped_busy (touches_refl hsep) ?_ rfl (.inl rfl)⟩
        · simp only [ObjectStore.advance, if_neg hmore, if_neg hsynced]
        · show 5 < content.length - offset + 7
          omega
  | cleanup e => exact h.elim
  | done r => exact absurd rfl (hnot r)
  | sync => exact content_seal hsep h hnot hf
  | stat => exact content_seal hsep h hnot hf
  | chmod => exact content_seal hsep h hnot hf
  | fanout => exact content_seal hsep h hnot hf
  | commit => exact content_seal hsep h hnot hf
  | syncDir => exact content_seal hsep h hnot hf

end Content

section File

variable {fs : Files} {caps : Capabilities} {path : Path} {i : ℕ} {d : Digest} {content : List UInt8}
  {size : ℕ} {a : Answer}

/-- A descriptor is at its place in a file as long as there is more to read. -/
theorem lt_of_readAt_ne_nil {fd offset chunk : ℕ} (hne : readAt fs fd offset chunk ≠ []) :
    offset < (fs.inode fd).content.length ∧ 0 < (readAt fs fd offset chunk).length ∧
      offset + (readAt fs fd offset chunk).length ≤ (fs.inode fd).content.length := by
  have hpos : 0 < (readAt fs fd offset chunk).length := List.length_pos_iff.2 hne
  have hlen : (readAt fs fd offset chunk).length
      = min (max 1 chunk) ((fs.inode fd).content.length - offset) := by
    unfold readAt
    rw [List.length_take, List.length_drop]
  omega

theorem holds_finish {p : Phase} (h : SealOk st fs d p) :
    (Put.file path (.finish d size p)).holds = if p.inFlight then some d else none := by
  cases p with
  | write => exact h.elim
  | _ => rfl

/-- The file is put in place of the staging file, by a clone or a copy. -/
theorem place_step {p : Placing} (hsep : Separate (Staged st) fs) (hi : fs.file path = some i)
    (hcontent : (fs.inode i).content = content)
    (h : FileOk st fs d i content (.placing d size p))
    (hf : ∀ e, a.fault = some e → Link.isUnsupported e = true ∧ ∃ src dst, p = .clone src dst) :
    ∃ fs' caps' phase', place st privileged ⟨path, fs, caps, .placing d size p⟩ d size a p
        = ⟨path, fs', caps', phase'⟩ ∧
      FileOk st fs' d i content phase' ∧
      Stepped privileged st d content.length fs (.file path (.placing d size p)) fs'
        (.file path phase') := by
  obtain ⟨-, h⟩ := h
  have hsame : Touches st d fs fs := touches_refl hsep
  have hnofault (hp : ∀ src dst, p ≠ .clone src dst) : a.fault = none := by
    by_contra hsome
    obtain ⟨e, he⟩ := Option.ne_none_iff_exists'.1 hsome
    obtain ⟨-, src, dst, heq⟩ := hf e he
    exact hp src dst heq
  cases p with
  | check =>
    have hnone := hnofault (by simp)
    by_cases hthere : (fs.file (st.objectPath d)).isSome = true
    · refine ⟨fs, caps, .done (.ok (d, size)), ?_, rfl, stepped_idle hsep (Nat.succ_pos _) rfl rfl⟩
      simp only [place, hnone, hthere, and_self, if_true]
    · refine ⟨fs, caps, .placing d size .remove, ?_, ⟨rfl, trivial⟩,
        stepped_idle hsep (Nat.lt_succ_self _) rfl rfl⟩
      simp only [place, hnone, hthere, and_false, if_false, Bool.false_eq_true]
  | remove =>
    have hnone := hnofault (by simp)
    obtain ⟨hfree, ht⟩ := unlink_frees (d := d) hsep
    have hplace : place st privileged ⟨path, fs, caps, .placing d size .remove⟩ d size a .remove
        = ⟨path, (fs.unlink (st.stagingPath d)).getD fs, caps,
          .placing d size (if caps.reflink = some false then .copyOpen else .cloneOpen)⟩ := by
      rcases hunlink : fs.unlink (st.stagingPath d) with _ | fs'
      · simp only [place, Answer.result, hnone, hunlink, Option.getD_none]
      · simp only [place, Answer.result, hnone, hunlink, Option.getD_some]
    refine ⟨_, caps, _, hplace, ?_⟩
    split_ifs
    · refine ⟨⟨rfl, hfree⟩, stepped_busy ht ?_ rfl (.inr rfl)⟩
      show 2 * _ + 13 < 2 * _ + 18
      omega
    · exact ⟨⟨rfl, hfree⟩, stepped_busy ht (Nat.lt_succ_self _) rfl (.inr rfl)⟩
  | cloneOpen =>
    have hnone := hnofault (by simp)
    refine ⟨fs, caps, .placing d size (.cloneCreate i), ?_, ⟨rfl, rfl, h⟩,
      stepped_busy hsame (Nat.lt_succ_self _) rfl (.inl rfl)⟩
    simp only [place, Answer.result, hnone, hi]
  | cloneCreate src =>
    obtain ⟨rfl, hfree⟩ := h
    have hnone := hnofault (by simp)
    refine ⟨fs.create (st.stagingPath d) ⟨[], createMode⟩, caps,
      .placing d size (.clone src fs.next), ?_, ⟨rfl, rfl, ?_⟩,
      stepped_busy (touches_create hsep) (Nat.lt_succ_self _) rfl (.inl rfl)⟩
    · simp only [place, hnone, hfree, Option.isSome_none, Bool.false_eq_true, if_false]
    · simp [Fs.create, Fs.setFile]
  | clone src dst =>
    obtain ⟨rfl, hfile⟩ := h
    rcases hfault : a.fault with _ | e
    · refine ⟨fs.setInode dst ⟨(fs.inode src).content, (fs.inode dst).mode⟩, ⟨some true⟩,
        .finish d size .stat, ?_, ⟨rfl, ?_, by simp⟩,
        stepped_busy (touches_setInode hsep hfile) ?_ rfl (.inl rfl)⟩
      · simp only [place, hfault]
      · show (fs.file (st.stagingPath d)).isSome = true
        rw [hfile]
        rfl
      · show 5 < 2 * _ + 15
        omega
    · refine ⟨fs, caps, .placing d size (.undo e), ?_, ⟨rfl, (hf e hfault).1⟩,
        stepped_busy hsame (Nat.lt_succ_self _) rfl (.inl rfl)⟩
      simp only [place, hfault]
  | undo e =>
    have hnone := hnofault (by simp)
    have he : Link.isUnsupported e = true := h
    obtain ⟨hfree, ht⟩ := unlink_frees (d := d) hsep
    refine ⟨_, ⟨some false⟩, .placing d size .copyOpen, ?_, ⟨rfl, hfree⟩,
      stepped_busy ht (Nat.lt_succ_self _) rfl (.inl rfl)⟩
    simp only [place, cloneFailed, drop, hnone, he, if_true]
  | copyOpen =>
    have hnone := hnofault (by simp)
    refine ⟨fs, caps, .placing d size (.copyCreate i (fs.inode i).mode), ?_, ⟨rfl, rfl, h⟩,
      stepped_busy hsame (Nat.lt_succ_self _) rfl (.inl rfl)⟩
    simp only [place, Answer.result, hnone, hi]
  | copyCreate src mode =>
    obtain ⟨rfl, hfree⟩ := h
    have hnone := hnofault (by simp)
    have hfile : (fs.create (st.stagingPath d) ⟨[], mode⟩).file (st.stagingPath d) = some fs.next := by
      simp [Fs.create, Fs.setFile]
    have hagain : (fs.create (st.stagingPath d) ⟨[], mode⟩).setInode fs.next ⟨[], mode⟩
        = fs.create (st.stagingPath d) ⟨[], mode⟩ := by
      simp [Fs.create, Fs.setFile, Fs.setInode]
    refine ⟨fs.create (st.stagingPath d) ⟨[], mode⟩, caps,
      .placing d size (.copy src fs.next 0), ?_, ⟨rfl, rfl, hfile⟩,
      stepped_busy (touches_create hsep) ?_ rfl (.inl rfl)⟩
    · simp only [place, Answer.result, hnone, Fs.openTruncate, hfree, hagain]
    · show content.length - 0 + (content.length + 11) < 2 * content.length + 12
      omega
  | copy src dst offset =>
    obtain ⟨rfl, hfile⟩ := h
    have hnone := hnofault (by simp)
    by_cases hnil : readAt fs src offset a.chunk = []
    · refine ⟨fs, caps, .finish d size .stat, ?_, ⟨rfl, ?_, by simp⟩,
        stepped_busy hsame ?_ rfl (.inl rfl)⟩
      · simp only [place, hnone, hnil, if_true]
      · show (fs.file (st.stagingPath d)).isSome = true
        rw [hfile]
        rfl
      · show 5 < content.length - offset + (content.length + 11)
        omega
    · obtain ⟨hlt, hpos, hle⟩ := lt_of_readAt_ne_nil hnil
      rw [hcontent] at hlt hle
      refine ⟨fs.write dst offset (readAt fs src offset a.chunk), caps,
        .placing d size (.copy src dst (offset + (readAt fs src offset a.chunk).length)), ?_,
        ⟨rfl, rfl, hfile⟩, stepped_busy (touches_setInode hsep hfile) ?_ rfl (.inl rfl)⟩
      · simp only [place, hnone, hnil, if_false]
      · show content.length - (offset + _) + _ < content.length - offset + _
        omega
  | discard => exact h.elim
  | reopen => exact h.elim
  | create src => exact h.elim
  | stream src dst offset => exact h.elim

/-- `put_file` commits what is staged as `seal_and_commit` does. -/
theorem finish_stepped {fs' : Files} {p p' : Phase} {n : ℕ} {phase' : FilePhase}
    (hs : Sealing st d fs p fs' p')
    (hp : (Put.file path (.finish d size p)).holds = if p.inFlight then some d else none)
    (hp' : (Put.file path phase').holds = if p'.inFlight then some d else none)
    (hrank : fileRank n phase' < sealRank p) :
    Stepped privileged st d n fs (.file path (.finish d size p)) fs' (.file path phase') where
  touches := hs.touches
  rank := hrank
  holds d' hd' := by
    rw [hp'] at hd'
    split_ifs at hd' with hfly
    rw [hp, if_pos (hs.flies hfly)]
    exact .inl hd'
  rests hnone _ := by
    rw [hp] at hnone
    split_ifs at hnone with hfly
    exact hs.rests (Bool.not_eq_true _ ▸ hfly)
  free hnone hfree := by
    rw [hp'] at hnone
    rw [hp] at hfree
    split_ifs at hnone hfree with hland hfly
    · exact .inl (hs.lands (Bool.not_eq_true _ ▸ hland) hfly)
    · rw [hs.rests (Bool.not_eq_true _ ▸ hfly)]
      exact hfree rfl

/-- One system call of `put_file`. -/
theorem file_step {phase : FilePhase} (hsep : Separate (Staged st) fs) (hi : fs.file path = some i)
    (hcontent : (fs.inode i).content = content) (hd : d = blobDigest b3 content)
    (h : FileOk st fs d i content phase) (hnot : ∀ r, phase ≠ .done r)
    (hf : ∀ e, a.fault = some e →
      Link.isUnsupported e = true ∧ (Put.file path phase).clones = true) :
    ∃ fs' caps' phase', move b3 st privileged ⟨path, fs, caps, phase⟩ a
        = some ⟨path, fs', caps', phase'⟩ ∧
      FileOk st fs' d i content phase' ∧
      Stepped privileged st d content.length fs (.file path phase) fs' (.file path phase') := by
  have hsame : Touches st d fs fs := touches_refl hsep
  have hnofault (hp : (Put.file path phase).clones = false) : a.fault = none := by
    by_contra hsome
    obtain ⟨e, he⟩ := Option.ne_none_iff_exists'.1 hsome
    rw [(hf e he).2] at hp
    cases hp
  cases phase with
  | lstat =>
    have hnone := hnofault rfl
    refine ⟨fs, caps, .hashOpen (fs.inode i).content.length, ?_, trivial,
      stepped_idle hsep (Nat.lt_succ_self _) rfl rfl⟩
    simp only [move, hnone, hi]
  | hashOpen size =>
    have hnone := hnofault rfl
    refine ⟨fs, caps, .hashRead size i [], ?_, ⟨rfl, List.nil_prefix⟩,
      stepped_idle hsep ?_ rfl rfl⟩
    · simp only [move, Answer.result, hnone, hi]
    · show content.length - 0 + (2 * content.length + 20) < 3 * content.length + 21
      omega
  | hashRead size fd fed =>
    obtain ⟨rfl, hfed⟩ := h
    have hnone := hnofault rfl
    by_cases hnil : readAt fs fd fed.flatten.length a.chunk = []
    · have hall : fed.flatten = content := flatten_of_readAt_nil hfed hcontent hnil
      have hname : hashFile b3 ⟨true, fed.flatten, fed⟩ size = d := by rw [hashFile_read, hall, hd]
      refine ⟨fs, caps, .placing d size .check, ?_, ⟨rfl, trivial⟩, stepped_idle hsep ?_ rfl rfl⟩
      · simp only [move, hnone, hnil, if_true, hname]
      · show 2 * content.length + 19 < content.length - _ + (2 * content.length + 20)
        omega
    · obtain ⟨hlt, hpos, hle⟩ := lt_of_readAt_ne_nil hnil
      rw [hcontent] at hlt hle
      refine ⟨fs, caps, .hashRead size fd (fed ++ [readAt fs fd fed.flatten.length a.chunk]), ?_,
        ⟨rfl, prefix_append_readAt a.chunk hfed hcontent⟩, stepped_idle hsep ?_ rfl rfl⟩
      · simp only [move, hnone, hnil, if_false]
      · show content.length - (fed ++ [_]).flatten.length + _ < content.length - _ + _
        rw [List.flatten_append, List.flatten_singleton, List.length_append]
        omega
  | placing d' size p =>
    obtain ⟨rfl, hp⟩ := h
    have hclone : ∀ e, a.fault = some e →
        Link.isUnsupported e = true ∧ ∃ src dst, p = .clone src dst := by
      intro e he
      obtain ⟨hun, hclones⟩ := hf e he
      refine ⟨hun, ?_⟩
      unfold Put.clones at hclones
      split at hclones
      · next heq =>
        cases heq
        exact ⟨_, _, rfl⟩
      · cases hclones
    obtain ⟨fs', caps', phase', hplace, hok, hstep⟩ := place_step hsep hi hcontent ⟨rfl, hp⟩ hclone
    exact ⟨fs', caps', phase', congrArg some hplace, hok, hstep⟩
  | finish d' size p =>
    obtain ⟨rfl, hseal, hnotdone⟩ := h
    obtain ⟨fs', p', hadv, hs⟩ : ∃ fs' p', st.advance privileged ⟨d', [], p⟩ fs a = some (fs', p') ∧
        Sealing st d' fs p fs' p' := seal_step hsep hseal hnotdone (hnofault rfl)
    by_cases hdone : ∃ r, p' = .done r
    · obtain ⟨r, rfl⟩ := hdone
      obtain rfl : r = .ok d' := hs.ok
      refine ⟨fs', caps, .done (.ok (d', size)), ?_, rfl, finish_stepped hs (holds_finish hseal) rfl ?_⟩
      · simp only [move, hadv]
        rfl
      · exact hs.rank
    · refine ⟨fs', caps, .finish d' size p', ?_, ⟨rfl, hs.ok, fun r hr => hdone ⟨r, hr⟩⟩,
        finish_stepped hs (holds_finish hseal) (holds_finish hs.ok) hs.rank⟩
      simp only [move, hadv]
      cases p' with
      | done r => exact absurd ⟨r, rfl⟩ hdone
      | _ => rfl
  | done r => exact absurd rfl (hnot r)

end File

section Others

variable {fs₀ fs fs' : Files} {d : Digest} {i : Insert} {p : Put}

/-- An insert works only on the staging path of the digest of what it was given. -/
theorem holds_own (h : PutOk b3 st fs₀ fs i p) {d : Digest}
    (hd : p.holds = some d ∨ p.enters = some d) : d = digestOf b3 fs₀ i := by
  rcases i with r | path
  · rcases p with c | ⟨path', phase⟩
    · have hc : c.digest = r.digest b3 := h.1
      rcases hd with hd | hd
      · exact (inFlight_of_holds hd).2.trans hc
      · unfold Put.enters at hd
        simp only [] at hd
        split at hd
        · exact (Option.some.inj hd).symm.trans hc
        · cases hd
    · exact h.elim
  · rcases p with c | ⟨path', phase⟩
    · exact h.elim
    · obtain ⟨-, -, j, hj, hphase⟩ := h
      have hown : d = blobDigest b3 (fs₀.inode j).content := by
        cases phase with
        | placing d' size p =>
          have hd' : d' = _ := hphase.1
          subst hd'
          cases p <;> simp [Put.holds, Put.enters] at hd <;> exact hd.symm
        | finish d' size p =>
          have hd' : d' = _ := hphase.1
          subst hd'
          simp only [Put.holds, Put.enters, or_false, reduceCtorEq] at hd
          split_ifs at hd
          exact (Option.some.inj hd).symm
        | _ =>
          simp [Put.holds, Put.enters] at hd
      rw [hown]
      simp [digestOf, hj]

theorem Touches.staging (h : Touches st d fs fs') {d' : Digest} (hne : d' ≠ d) :
    fs'.file (st.stagingPath d') = fs.file (st.stagingPath d') :=
  h.file (fun heq => hne (st.stagingPath_inj heq)) (st.stagingPath_ne d' d)

theorem SealOk.frame (ht : Touches st d fs fs') {d' : Digest} {p : Phase}
    (hne : p.inFlight = true → d' ≠ d) (h : SealOk st fs d' p) : SealOk st fs' d' p := by
  have hthere : p.inFlight = true → (fs.file (st.stagingPath d')).isSome →
      (fs'.file (st.stagingPath d')).isSome := by
    intro hfly
    rw [ht.staging (hne hfly)]
    exact id
  cases p with
  | sync => exact hthere rfl h
  | stat => exact hthere rfl h
  | chmod => exact hthere rfl h
  | fanout => exact hthere rfl h
  | commit => exact ⟨hthere rfl h.1, ht.dir h.2⟩
  | _ => exact h

theorem ContentOk.frame (ht : Touches st d fs fs') {c : Call}
    (hne : c.phase.inFlight = true → c.digest ≠ d) (h : ContentOk st fs c) : ContentOk st fs' c := by
  rcases c with ⟨d', content, phase⟩
  cases phase with
  | check => trivial
  | create => trivial
  | write fd offset =>
    have hfd : fs.file (st.stagingPath d') = some fd := h
    exact (ht.staging (hne rfl)).trans hfd
  | _ => exact SealOk.frame ht hne h

theorem FileOk.frame (ht : Touches st d fs fs') {d' : Digest} {src : ℕ} {content : List UInt8}
    {path : Path} {phase : FilePhase} (hne : (Put.file path phase).holds ≠ some d)
    (h : FileOk st fs d' src content phase) : FileOk st fs' d' src content phase := by
  cases phase with
  | placing d₁ size p =>
    obtain ⟨rfl, hp⟩ := h
    refine ⟨rfl, ?_⟩
    have hstaging (hd : (Put.file path (.placing d₁ size p)).holds = some d₁) :
        fs'.file (st.stagingPath d₁) = fs.file (st.stagingPath d₁) :=
      ht.staging fun heq => hne (heq ▸ hd)
    cases p with
    | cloneOpen => exact (hstaging rfl).trans hp
    | copyOpen => exact (hstaging rfl).trans hp
    | cloneCreate fd => exact ⟨hp.1, (hstaging rfl).trans hp.2⟩
    | copyCreate fd mode => exact ⟨hp.1, (hstaging rfl).trans hp.2⟩
    | clone fd dst => exact ⟨hp.1, (hstaging rfl).trans hp.2⟩
    | copy fd dst offset => exact ⟨hp.1, (hstaging rfl).trans hp.2⟩
    | _ => exact hp
  | finish d₁ size p =>
    obtain ⟨rfl, hseal, hnot⟩ := h
    refine ⟨rfl, hseal.frame ht fun hfly heq => hne ?_, hnot⟩
    rw [holds_finish hseal, if_pos hfly, heq]
  | _ => exact h

/-- What another insert does to its staging path is nothing to one that works on a different one, or
on none. -/
theorem PutOk.frame (ht : Touches st d fs fs') (h : PutOk b3 st fs₀ fs i p) (hne : p.holds ≠ some d) :
    PutOk b3 st fs₀ fs' i p := by
  rcases i with r | path
  · rcases p with c | ⟨path', phase⟩
    · refine ⟨h.1, h.2.frame ht fun hfly heq => hne ?_⟩
      rw [holds_content hfly, heq]
    · exact h.elim
  · rcases p with c | ⟨path', phase⟩
    · exact h.elim
    · obtain ⟨hpath, hout, j, hj, hphase⟩ := h
      exact ⟨hpath, hout, j, hj, hphase.frame ht hne⟩

theorem Outer.frame (ht : Touches st d fs fs') (h : Outer st fs₀ fs) : Outer st fs₀ fs' := by
  intro q hq
  obtain ⟨hfile, hinode⟩ := h q hq
  refine ⟨(ht.file (hq d).1 (hq d).2).trans hfile, fun i hi => ?_⟩
  rw [ht.inode (hq d).1 (hfile.trans hi)]
  exact hinode i hi

theorem Fresh.frame (ht : Touches st d fs fs') {d' : Digest} (hne : d' ≠ d)
    (h : Fresh privileged fs (st.stagingPath d')) : Fresh privileged fs' (st.stagingPath d') := by
  rcases h with hnone | ⟨i, hi, hw⟩
  · exact .inl ((ht.staging hne).trans hnone)
  · refine .inr ⟨i, (ht.staging hne).trans hi, ?_⟩
    rw [ht.inode (fun heq => hne (st.stagingPath_inj heq)) hi]
    exact hw

end Others

section Step

variable {fs₀ fs : Files} {caps : Capabilities} {i : Insert} {p : Put} {a : Answer}

/-- How much of a file an insert has to read. -/
def lengthOf (fs : Files) : Insert → ℕ
  | .content _ => 0
  | .file path => (fs.file path).elim 0 fun i => (fs.inode i).content.length

/-- Whatever insert it is: it makes its next system call, and what it needs to find is there. -/
theorem put_step (hsep : Separate (Staged st) fs) (hout : Outer st fs₀ fs)
    (h : PutOk b3 st fs₀ fs i p) (hnot : p.result = none) (hchunk : 0 < a.chunk)
    (hf : ∀ e, a.fault = some e → Link.isUnsupported e = true ∧ p.clones = true)
    (hfresh : ∀ d, p.enters = some d → Fresh privileged fs (st.stagingPath d)) :
    ∃ fs' caps' p', advance b3 st privileged fs caps a p = some (fs', caps', p') ∧
      PutOk b3 st fs₀ fs' i p' ∧
      Stepped privileged st (digestOf b3 fs₀ i) (lengthOf fs₀ i) fs p fs' p' := by
  rcases i with r | path
  · rcases p with c | ⟨path', phase⟩
    · obtain ⟨hc, hok⟩ := h
      have hnofault : a.fault = none := by
        by_contra hsome
        obtain ⟨e, he⟩ := Option.ne_none_iff_exists'.1 hsome
        exact absurd (hf e he).2 (by simp [Put.clones])
      have hcreate : c.phase = .create → Fresh privileged fs (st.stagingPath c.digest) :=
        fun hphase => hfresh c.digest (by simp [Put.enters, hphase])
      have hdone : ∀ r, c.phase ≠ .done r := by
        intro r hphase
        simp [Put.result, hphase] at hnot
      obtain ⟨fs', phase', hadv, hok', hstep⟩ : ∃ fs' p', st.advance privileged c fs a = some (fs', p') ∧
          ContentOk st fs' { c with phase := p' } ∧ Stepped privileged st c.digest 0 fs (.content c) fs'
            (.content { c with phase := p' }) := content_step hsep hok hdone hnofault hchunk hcreate
      refine ⟨fs', caps, .content { c with phase := phase' }, ?_, ⟨hc, hok'⟩, hc ▸ hstep⟩
      simp only [advance, hadv]
      rfl
    · exact h.elim
  · rcases p with c | ⟨path', phase⟩
    · exact h.elim
    · obtain ⟨rfl, hpath, j, hj, hok⟩ := h
      have hfile : fs.file path' = some j := (hout path' hpath).1.trans hj
      have hinode : fs.inode j = fs₀.inode j := (hout path' hpath).2 j hj
      have hdone : ∀ r, phase ≠ .done r := by
        rintro r rfl
        simp [Put.result] at hnot
      obtain ⟨fs', caps', phase', hmove, hok', hstep⟩ :=
        file_step hsep hfile (congrArg _ hinode) rfl hok hdone hf
      have hown : digestOf b3 fs₀ (.file path') = blobDigest b3 (fs₀.inode j).content := by
        simp [digestOf, hj]
      have hlen : lengthOf fs₀ (.file path') = (fs₀.inode j).content.length := by
        simp [lengthOf, hj]
      refine ⟨fs', caps', .file path' phase', ?_, ⟨rfl, hpath, j, hj, hok'⟩, ?_⟩
      · simp only [advance]
        rw [hmove]
        rfl
      · rw [hown, hlen]
        exact hstep

end Step

section Run

/-- What holds throughout a race in which every insert is alone at its staging path. -/
structure Orderly (b3 : Blake3) (st : ObjectStore) (privileged : Bool) (given : ℕ → Insert)
    (fs₀ : Files) (s : Puts) : Prop where
  separate : Separate (Staged st) s.fs
  outer : Outer st fs₀ s.fs
  put : ∀ {who p}, s.puts who = some p → PutOk b3 st fs₀ s.fs (given who) p
  sole : ∀ {who who' p p' d}, s.puts who = some p → s.puts who' = some p' → p.holds = some d →
    p'.holds = some d → who = who'
  fresh : ∀ d, (∀ who p, s.puts who = some p → p.holds ≠ some d) →
    Fresh privileged s.fs (st.stagingPath d)

variable {given : ℕ → Insert} {fs₀ : Files} {s s' : Puts}

/-- A turn of a race in which nothing fails and every insert is alone at its staging path. -/
def Fair (st : ObjectStore) (given : ℕ → Insert) (s : Puts) (t : Turn) : Prop :=
  Unfailing st s t ∧ Alone s t ∧ ∀ who i, t = .start who i → given who = i

theorem begin_holds (i : Insert) : (begin b3 i).holds = none := by
  cases i with
  | content r => rfl
  | file path => rfl

theorem enters_holds {p : Put} {d : Digest} (h : p.enters = some d) : p.holds = none := by
  unfold Put.enters at h
  rcases p with ⟨d', content, phase⟩ | ⟨path, phase⟩
  · simp only [] at h
    split at h
    · rfl
    · cases h
  · simp only [] at h
    split at h
    · rfl
    · cases h

theorem update_puts {puts : ℕ → Option Put} {who who' : ℕ} {p q : Put}
    (h : Function.update puts who (some q) who' = some p) :
    who' = who ∧ p = q ∨ who' ≠ who ∧ puts who' = some p := by
  by_cases heq : who' = who
  · subst heq
    rw [Function.update_self, Option.some.injEq] at h
    exact .inl ⟨rfl, h.symm⟩
  · rw [Function.update_of_ne heq] at h
    exact .inr ⟨heq, h⟩

theorem start_orderly (h : Orderly b3 st privileged given fs₀ s) {who : ℕ} {i : Insert}
    (hok : Fair st given s (.start who i)) (ht : turn b3 st privileged s (.start who i) = some s') :
    Orderly b3 st privileged given fs₀ s' := by
  have hgiven : given who = i := hok.2.2 who i rfl
  rcases hnew : s.puts who with _ | p
  swap
  · simp [turn, hnew] at ht
  simp only [turn, hnew, Option.some.injEq] at ht
  subst ht
  refine ⟨h.separate, h.outer, fun hp => ?_, fun hp hp' hd hd' => ?_, fun d hd => h.fresh d ?_⟩
  · rcases update_puts hp with ⟨rfl, rfl⟩ | ⟨-, hp⟩
    · rw [hgiven]
      cases i with
      | content r => exact ⟨rfl, trivial⟩
      | file path =>
        obtain ⟨hthere, hpath⟩ := hok.1
        rw [(h.outer path hpath).1] at hthere
        obtain ⟨j, hj⟩ := Option.isSome_iff_exists.1 hthere
        exact ⟨rfl, hpath, j, hj, trivial⟩
    · exact h.put hp
  · rcases update_puts hp with ⟨-, rfl⟩ | ⟨-, hp⟩
    · rw [begin_holds] at hd
      cases hd
    · rcases update_puts hp' with ⟨-, rfl⟩ | ⟨-, hp'⟩
      · rw [begin_holds] at hd'
        cases hd'
      · exact h.sole hp hp' hd hd'
  · intro who' p hp
    have hne : who' ≠ who := by
      rintro rfl
      rw [hnew] at hp
      cases hp
    exact hd who' p ((Function.update_of_ne hne _ _).trans hp)

/-- What the next system call of one insert comes to in a race. -/
theorem move_orderly (h : Orderly b3 st privileged given fs₀ s) {who : ℕ} {a : Answer} {p : Put}
    (hp : s.puts who = some p) (hnot : p.result = none) (hun : Unfailing st s (.move who a))
    (halone : Alone s (.move who a)) :
    ∃ s' p', turn b3 st privileged s (.move who a) = some s' ∧ s'.puts who = some p' ∧
      rank (lengthOf fs₀ (given who)) p' < rank (lengthOf fs₀ (given who)) p ∧
      Orderly b3 st privileged given fs₀ s' := by
  obtain ⟨hchunk, hfault⟩ := hun
  have hclones : ∀ e, a.fault = some e → Link.isUnsupported e = true ∧ p.clones = true := by
    intro e he
    obtain ⟨hunsupported, q, hq, hcl⟩ := hfault e he
    rw [Option.mem_def, hp, Option.some.injEq] at hq
    exact ⟨hunsupported, hq ▸ hcl⟩
  have hentered : ∀ d, p.enters = some d → ∀ who' p', s.puts who' = some p' → p'.holds ≠ some d := by
    intro d hd who' p' hp'
    by_cases hwho : who' = who
    · subst hwho
      rw [hp, Option.some.injEq] at hp'
      subst hp'
      simp [enters_holds hd]
    · exact halone p d hp hd who' p' hwho hp'
  obtain ⟨fs', caps', p', hadv, hok', hstep⟩ := put_step h.separate h.outer (h.put hp) hnot hchunk
    hclones fun d hd => h.fresh d (hentered d hd)
  refine ⟨⟨fs', caps', Function.update s.puts who (some p')⟩, p', ?_, Function.update_self _ _ _,
    hstep.rank, ?_⟩
  · simp only [turn, hp, Option.bind_eq_bind, Option.bind_some]
    rw [hadv]
    rfl
  have hown (d : Digest) : p.holds = some d ∨ p.enters = some d → d = digestOf b3 fs₀ (given who) :=
    holds_own (h.put hp)
  have hothers {who' : ℕ} {q : Put} {d : Digest} (hne : who' ≠ who) (hq : s.puts who' = some q)
      (hd : p.holds = some d ∨ p.enters = some d) : q.holds ≠ some d := by
    rcases hd with hd | hd
    · exact fun hd' => hne (h.sole hq hp hd' hd)
    · exact hentered d hd who' q hq
  refine ⟨hstep.touches.separate, h.outer.frame hstep.touches, fun {who' q} hq => ?_,
    fun {who₁ who₂ q₁ q₂ d} hq hq' hd hd' => ?_, fun d hd => ?_⟩
  · rcases update_puts hq with ⟨rfl, rfl⟩ | ⟨hne, hq⟩
    · exact hok'
    · by_cases hwork : p.holds = none ∧ p.enters = none
      · rw [hstep.rests hwork.1 hwork.2]
        exact h.put hq
      · have hworks : p.holds = some (digestOf b3 fs₀ (given who)) ∨
            p.enters = some (digestOf b3 fs₀ (given who)) := by
          rcases hholds : p.holds with _ | d
          · rcases henters : p.enters with _ | d
            · exact absurd ⟨hholds, henters⟩ hwork
            · exact .inr (hown d (.inr henters) ▸ rfl)
          · exact .inl (hown d (.inl hholds) ▸ rfl)
        exact (h.put hq).frame hstep.touches (hothers hne hq hworks)
  · rcases update_puts hq with ⟨rfl, rfl⟩ | ⟨hne, hold⟩
    · rcases update_puts hq' with ⟨rfl, -⟩ | ⟨hne', hold'⟩
      · rfl
      · exact absurd hd' (hothers hne' hold' (hstep.holds d hd))
    · rcases update_puts hq' with ⟨rfl, rfl⟩ | ⟨-, hold'⟩
      · exact absurd hd (hothers hne hold (hstep.holds d hd'))
      · exact h.sole hold hold' hd hd'
  · have hold {who' : ℕ} {q : Put} (hne : who' ≠ who) (hq : s.puts who' = some q) : q.holds ≠ some d :=
      hd who' q ((Function.update_of_ne hne _ _).trans hq)
    have hfree (hidle : p.holds ≠ some d) : Fresh privileged s.fs (st.stagingPath d) := by
      refine h.fresh d fun who' q hq => ?_
      by_cases hwho : who' = who
      · subst hwho
        rw [hp, Option.some.injEq] at hq
        exact hq ▸ hidle
      · exact hold hwho hq
    by_cases hd' : d = digestOf b3 fs₀ (given who)
    · subst hd'
      refine hstep.free ?_ fun hnone => hfree (by simp [hnone])
      rcases hholds : p'.holds with _ | d
      · rfl
      · have hwho := hd who p' (Function.update_self _ _ _)
        exact absurd (hholds.trans (holds_own hok' (.inl hholds) ▸ rfl)) hwho
    · exact (hfree fun hholds => hd' (hown d (.inl hholds))).frame hstep.touches hd'

/-- An insert that has returned makes no more system calls. -/
theorem advance_of_result {fs : Files} {caps : Capabilities} {a : Answer} {p : Put}
    {r : Except CasError Digest} (h : p.result = some r) :
    advance b3 st privileged fs caps a p = none := by
  unfold Put.result at h
  rcases p with ⟨d, content, phase⟩ | ⟨path, phase⟩
  · simp only [] at h
    split at h
    · rfl
    · cases h
  · simp only [] at h
    split at h
    · rfl
    · cases h

theorem turn_orderly {t : Turn} (h : Orderly b3 st privileged given fs₀ s) (hok : Fair st given s t)
    (ht : turn b3 st privileged s t = some s') : Orderly b3 st privileged given fs₀ s' := by
  cases t with
  | start who i => exact start_orderly h hok ht
  | move who a =>
    rcases hp : s.puts who with _ | p
    · simp [turn, hp] at ht
    rcases hr : p.result with _ | r
    · obtain ⟨s₁, -, hs₁, -, -, ho⟩ := move_orderly h hp hr hok.1 hok.2.1
      rw [hs₁, Option.some.injEq] at ht
      exact ht ▸ ho
    · simp [turn, hp, advance_of_result hr] at ht

/-- The staging paths are free or can be written to. -/
theorem initial_orderly {caps : Capabilities} (hsep : Separate (Staged st) fs₀)
    (hfresh : ∀ d, Fresh privileged fs₀ (st.stagingPath d)) :
    Orderly b3 st privileged given fs₀ ⟨fs₀, caps, fun _ => none⟩ :=
  ⟨hsep, fun _ _ => ⟨rfl, fun _ _ => rfl⟩, (nomatch ·), (nomatch ·), fun d _ => hfresh d⟩

theorem result_of_putOk {fs : Files} {i : Insert} {p : Put} (h : PutOk b3 st fs₀ fs i p)
    {r : Except CasError Digest} (hr : p.result = some r) : r = .ok (digestOf b3 fs₀ i) := by
  unfold Put.result at hr
  rcases i with request | path
  · rcases p with ⟨d, content, phase⟩ | ⟨path', phase⟩
    · obtain ⟨hd, hok⟩ := h
      simp only [] at hr hd
      split at hr
      · have hres : _ = Except.ok d := hok
        rw [← Option.some.inj hr, hres, hd]
        rfl
      · cases hr
    · exact h.elim
  · rcases p with c | ⟨path', phase⟩
    · exact h.elim
    · obtain ⟨-, -, j, hj, hok⟩ := h
      simp only [] at hr
      split at hr
      · have hres : _ = Except.ok (blobDigest b3 (fs₀.inode j).content) := hok
        rw [← Option.some.inj hr, hres]
        simp [digestOf, hj]
      · cases hr

/-- While every insert is alone at its staging path, none fails: one that has returned has returned
the digest of what it was given, and one that has not makes a next system call, which leaves it with
fewer to make. -/
theorem puts_return {caps : Capabilities} (hsep : Separate (Staged st) fs₀)
    (hfresh : ∀ d, Fresh privileged fs₀ (st.stagingPath d)) {turns : List Turn}
    (hok : Runs.AllSteps (turn b3 st privileged) (Fair st given) ⟨fs₀, caps, fun _ => none⟩ turns)
    (hv : Runs.Visits (turn b3 st privileged) ⟨fs₀, caps, fun _ => none⟩ turns s) {who : ℕ} {p : Put}
    (hp : s.puts who = some p) :
    (∀ r, p.result = some r → r = .ok (digestOf b3 fs₀ (given who))) ∧
      (p.result = none → ∀ a, Fair st given s (.move who a) → ∃ s' p',
        turn b3 st privileged s (.move who a) = some s' ∧ s'.puts who = some p' ∧
        rank (lengthOf fs₀ (given who)) p' < rank (lengthOf fs₀ (given who)) p) := by
  have h : Orderly b3 st privileged given fs₀ s :=
    Runs.visited_keeps (fun _ _ _ hI hok ht => turn_orderly hI hok ht) (initial_orderly hsep hfresh)
      hok hv
  refine ⟨fun r hr => result_of_putOk (h.put hp) hr, fun hnot a hfair => ?_⟩
  obtain ⟨s', p', hturn, hp', hrank, -⟩ := move_orderly h hp hnot hfair.1 hfair.2.1
  exact ⟨s', p', hturn, hp', hrank⟩

end Run

section Sample

/-- Content is put, and the system does what it is asked. -/
def Turn.Plain : Turn → Prop
  | .start _ (.content _) => True
  | .start _ (.file _) => False
  | .move _ a => a.fault = none ∧ 0 < a.chunk

theorem plain_unfailing {t : Turn} (h : t.Plain) (s : Puts) : Unfailing st s t := by
  cases t with
  | start who i =>
    cases i with
    | content r => trivial
    | file path => exact h.elim
  | move who a =>
    refine ⟨h.2, fun e he => ?_⟩
    rw [Option.mem_def, h.1] at he
    cases he

def go (who : ℕ) : Turn := .move who ⟨none, 4096⟩

def nothingPut : Puts := ⟨emptyFiles, ⟨none⟩, fun _ => none⟩

/-- Two puts of one byte. The second opens the staging file after the first has written it, and the
first renames it. -/
def sharedTurns : List Turn :=
  [.start 0 (.content (.bytes [120])), .start 1 (.content (.bytes [120])), go 0, go 1, go 0, go 0,
    go 1, go 0, go 0, go 0, go 0, go 0, go 1, go 1, go 1]

/-- What an insert has returned. -/
def returned (s : Puts) (who : ℕ) : Option (Except CasError Digest) := (s.puts who).bind Put.result

/-- Two puts of the same content, and one of them fails though no system call of it was made to. -/
theorem shared_fails : (∀ t ∈ sharedTurns, ∀ s, Unfailing sampleStore s t) ∧
    ∃ s, Runs.exec (turn sampleBlake3 sampleStore false) nothingPut sharedTurns = some s ∧
      returned s 0 = some (.ok sampleBlob) ∧
      returned s 1 = some (.error
        (.io "stat staging file" (sampleStore.stagingPath sampleBlob) .notFound)) := by
  refine ⟨fun t ht s => plain_unfailing ?_ s, ?_⟩
  · simp only [sharedTurns, List.mem_cons, List.not_mem_nil, or_false] at ht
    rcases ht with rfl | rfl | rfl | rfl | rfl | rfl | rfl | rfl | rfl | rfl | rfl | rfl | rfl | rfl | rfl
    all_goals trivial
  have hrun : ((Runs.exec (turn sampleBlake3 sampleStore false) nothingPut sharedTurns).map fun s =>
      (returned s 0, returned s 1)) = some (some (.ok sampleBlob), some (.error
        (.io "stat staging file" (sampleStore.stagingPath sampleBlob) .notFound))) := by
    decide +kernel
  obtain ⟨s, hs, heq⟩ := Option.map_eq_some_iff.1 hrun
  exact ⟨s, hs, congrArg Prod.fst heq, congrArg Prod.snd heq⟩

/-- The number of the insert a turn is about. -/
def Turn.who : Turn → ℕ
  | .start who _ => who
  | .move who _ => who

theorem turn_others {t : Turn} {s s' : Puts} (h : turn b3 st privileged s t = some s') {w : ℕ}
    (hw : w ≠ t.who) : s'.puts w = s.puts w := by
  cases t with
  | start who i =>
    simp only [turn] at h
    split at h
    · cases h
    · rw [← Option.some.inj h]
      exact Function.update_of_ne hw _ _
  | move who a =>
    simp only [turn] at h
    obtain ⟨p, -, h⟩ := Option.bind_eq_some_iff.1 h
    obtain ⟨x, -, h⟩ := Option.bind_eq_some_iff.1 h
    rw [← Option.some.inj h]
    exact Function.update_of_ne hw _ _

/-- An insert that runs by itself is alone at its staging path. -/
theorem fair_lone {given : ℕ → Insert} {who : ℕ} {turns : List Turn} {s : Puts}
    (hplain : ∀ t ∈ turns, t.Plain ∧ ((∃ a, t = .move who a) ∨ t = .start who (given who)))
    (hs : ∀ who', who' ≠ who → s.puts who' = none) :
    Runs.AllSteps (turn b3 st privileged) (Fair st given) s turns := by
  have hwho {t : Turn} (ht : (∃ a, t = .move who a) ∨ t = .start who (given who)) : t.who = who := by
    rcases ht with ⟨a, rfl⟩ | rfl
    · rfl
    · rfl
  refine Runs.allSteps_of_keeps (I := fun s => ∀ who', who' ≠ who → s.puts who' = none) ?_ ?_ hplain
    hs
  · intro s t hI ht
    refine ⟨plain_unfailing ht.1 s, ?_, fun w i heq => ?_⟩
    · rcases ht.2 with ⟨a, rfl⟩ | rfl
      · intro p d _ _ w q hne hq
        rw [hI w hne] at hq
        cases hq
      · trivial
    · rcases ht.2 with ⟨a, rfl⟩ | rfl
      · cases heq
      · cases heq
        rfl
  · intro s t s' hI ht hstep w hw
    rw [turn_others hstep (hwho ht.2 ▸ hw), hI w hw]

/-- A put that has the store for itself. -/
theorem lone_returns : ∃ s p, Runs.exec (turn sampleBlake3 sampleStore false) nothingPut
      (.start 0 (.content (.bytes [120])) :: List.replicate 8 (go 0)) = some s ∧ s.puts 0 = some p ∧
    p.result.isSome = true ∧
    ∀ r, p.result = some r → r = .ok (digestOf sampleBlake3 emptyFiles (.content (.bytes [120]))) := by
  have hrun : ((Runs.exec (turn sampleBlake3 sampleStore false) nothingPut
      (.start 0 (.content (.bytes [120])) :: List.replicate 8 (go 0))).bind fun s =>
        (s.puts 0).map fun p => p.result.isSome) = some true := by decide +kernel
  obtain ⟨s, hs, hput⟩ := Option.bind_eq_some_iff.1 hrun
  obtain ⟨p, hp, hres⟩ := Option.map_eq_some_iff.1 hput
  have hplain : ∀ t ∈ Turn.start 0 (.content (.bytes [120])) :: List.replicate 8 (go 0),
      t.Plain ∧ ((∃ a, t = .move 0 a) ∨ t = .start 0 (.content (.bytes [120]))) := by
    intro t ht
    rcases List.mem_cons.1 ht with rfl | ht
    · exact ⟨trivial, .inr rfl⟩
    · rw [List.eq_of_mem_replicate ht]
      exact ⟨⟨rfl, Nat.succ_pos _⟩, .inl ⟨_, rfl⟩⟩
  have hfair : Runs.AllSteps (turn sampleBlake3 sampleStore false)
      (Fair sampleStore fun _ => .content (.bytes [120])) nothingPut
      (.start 0 (.content (.bytes [120])) :: List.replicate 8 (go 0)) :=
    fair_lone hplain fun _ _ => rfl
  have hsettled : Settled sampleBlake3 sampleStore emptyFiles := emptyFiles_settled
  have hreturn := puts_return hsettled.separate (fun d => .inl rfl) hfair
    ⟨_, [], (List.append_nil _).symm, hs⟩ hp
  exact ⟨s, p, hs, hp, hres, hreturn.1⟩

end Sample

end Puts

end Jetrun
