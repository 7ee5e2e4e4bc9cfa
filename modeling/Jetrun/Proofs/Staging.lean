import Jetrun.Proofs.Gc
import Jetrun.Staging

/-!
# What concurrent inserts leave in place

While no two inserts of one digest are in flight together, every object is whole. The staging file
of a call in flight is its own: its name is the call's staging path or gone, no other call has it
open, and it holds what the call has written so far. So what a rename puts in place is the whole
content, and what stands in place is never written again.

Two inserts of one digest share the staging path. The second one empties the file of the first,
which may rename it before anything is written to it again.
-/

namespace Jetrun

namespace ObjectStore

open Inodes

variable {b3 : Blake3} {st : ObjectStore} {privileged : Bool}

section Paths

variable (st)

theorem staging_plain (d : Digest) : Path.Plain (d.toHex ++ ".staging") := by
  refine ⟨fun h => ?_, fun h => ?_, fun h => ?_⟩
  · have := congrArg (fun s => s.toList.length) h
    simp at this
  · have := congrArg (fun s => s.toList.length) h
    simp at this
  · rw [String.toList_append, List.mem_append] at h
    rcases h with h | h
    · exact d.toHex_plain.2.2 h
    · exact absurd h (by decide)

theorem stagingPath_eq (d : Digest) : st.stagingPath d = st.tmp ++ [d.toHex ++ ".staging"] :=
  Path.push_plain (staging_plain d) _

theorem stagingPath_inj {d d' : Digest} (h : st.stagingPath d = st.stagingPath d') : d = d' := by
  rw [stagingPath_eq, stagingPath_eq] at h
  have h1 := List.append_inj_right h rfl
  rw [List.cons.injEq] at h1
  have h2 := congrArg String.toList h1.1
  rw [String.toList_append, String.toList_append] at h2
  exact Digest.toHex_inj (String.toList_inj.1 (List.append_cancel_right h2))

/-- Nothing is staged where an object stands: the two directories are at different depths. -/
theorem root_push_eq : st.objects = st.root ++ ["objects"] ∧ st.tmp = st.root ++ ["tmp"] := by
  have h1 : Path.Plain "objects" := ⟨by decide, by decide, by decide⟩
  have h2 : Path.Plain "tmp" := ⟨by decide, by decide, by decide⟩
  rw [st.objects_eq, st.tmp_eq, Path.push_plain h1, Path.push_plain h2]
  exact ⟨rfl, rfl⟩

theorem objectPath_below (d : Digest) :
    st.objectPath d = st.root ++ ["objects", d.fanout, d.toHex] := by
  rw [objectPath_eq, st.root_push_eq.1]
  simp

theorem stagingPath_below (d : Digest) :
    st.stagingPath d = st.root ++ ["tmp", d.toHex ++ ".staging"] := by
  rw [stagingPath_eq, st.root_push_eq.2]
  simp

theorem stagingPath_ne (d d' : Digest) : st.stagingPath d ≠ st.objectPath d' := fun h => by
  have hlen := congrArg List.length h
  rw [stagingPath_below, objectPath_below] at hlen
  simp at hlen

end Paths

section Advance

/-- Nothing but modes and directories changes. -/
structure Quiet (fs fs' : Files) : Prop where
  file : fs'.file = fs.file
  next : fs'.next = fs.next
  content : ∀ i, (fs'.inode i).content = (fs.inode i).content

theorem Quiet.refl (fs : Files) : Quiet fs fs := ⟨rfl, rfl, fun _ => rfl⟩

theorem Answer.result_ok {α : Type} {a : Answer} {r : Option α} {e : IoError} {x : α}
    (h : a.result r e = .ok x) : r = some x := by
  unfold Answer.result at h
  split at h <;> simp_all

theorem setMode_quiet {fs fs' : Files} {p : Path} {mode : ℕ} (h : fs.setMode p mode = some fs') :
    Quiet fs fs' := by
  simp only [Fs.setMode, Option.map_eq_some_iff] at h
  obtain ⟨i, -, rfl⟩ := h
  refine ⟨rfl, rfl, fun j => ?_⟩
  simp only [Fs.setInode, Function.update_apply]
  split_ifs with hj
  · rw [hj]
  · rfl

/-- What one system call of a put can do. -/
inductive Effect (st : ObjectStore) (privileged : Bool) (call : Call) (fs : Files) :
    Files → Phase → Prop
  | quiet {fs' phase} : Quiet fs fs' → phase.descriptor = none →
      (phase.written = true → call.phase.written = true ∨
        ∃ fd k, call.phase = .write fd k ∧ call.content.length ≤ k) →
      Effect st privileged call fs fs' phase
  | create {fs' fd} : call.phase = .create →
      fs.openTruncate privileged createMode (st.stagingPath call.digest) = some (fs', fd) →
      Effect st privileged call fs fs' (.write fd 0)
  | write {fd k n} : call.phase = .write fd k →
      Effect st privileged call fs (fs.write fd k ((call.content.drop k).take n))
        (.write fd (k + ((call.content.drop k).take n).length))
  | rename {fs' phase} : call.phase = .commit → phase.inFlight = false →
      fs.rename (st.stagingPath call.digest) (st.objectPath call.digest) = some fs' →
      Effect st privileged call fs fs' phase
  | unlink {phase} : phase.inFlight = false →
      Effect st privileged call fs (fs.setFile (st.stagingPath call.digest) none) phase

theorem advance_effect {call : Call} {fs fs' : Files} {a : Answer} {phase : Phase}
    (h : st.advance privileged call fs a = some (fs', phase)) :
    Effect st privileged call fs fs' phase := by
  have still : ∀ {p : Phase}, p.descriptor = none → p.written = false →
      Effect st privileged call fs fs p := fun hd hw =>
    .quiet (.refl fs) hd (by simp [hw])
  have inj : ∀ {x : Files × Phase}, some x = some (fs', phase) → fs' = x.1 ∧ phase = x.2 :=
    fun hx => by rw [Option.some.injEq] at hx; exact ⟨by rw [hx], by rw [hx]⟩
  rcases hp : call.phase with _ | _ | ⟨fd, k⟩ | _ | _ | _ | _ | _ | e | _ | r <;>
    simp only [advance, hp] at h
  · split_ifs at h <;> (obtain ⟨rfl, rfl⟩ := inj h; exact still rfl rfl)
  · split at h
    · obtain ⟨rfl, rfl⟩ := inj h
      exact still rfl rfl
    · rename_i hok
      obtain ⟨rfl, rfl⟩ := inj h
      exact .create hp (Answer.result_ok hok)
  · by_cases hk : k < call.content.length
    · simp only [if_pos hk] at h
      rcases hf : a.fault with _ | e <;> simp only [hf] at h
      · split_ifs at h
        · obtain ⟨rfl, rfl⟩ := inj h
          exact still rfl rfl
        · obtain ⟨rfl, rfl⟩ := inj h
          exact .write hp
      · obtain ⟨rfl, rfl⟩ := inj h
        exact still rfl rfl
    · simp only [if_neg hk] at h
      obtain ⟨rfl, rfl⟩ := inj h
      refine .quiet (.refl _) ?_ fun _ => .inr ⟨fd, k, hp, not_lt.1 hk⟩
      split_ifs <;> rfl
  · split at h <;> obtain ⟨rfl, rfl⟩ := inj h
    · exact still rfl rfl
    · exact .quiet (.refl _) rfl fun _ => .inl (by rw [hp]; rfl)
  · split at h <;> obtain ⟨rfl, rfl⟩ := inj h
    · exact still rfl rfl
    · exact .quiet (.refl _) rfl fun _ => .inl (by rw [hp]; rfl)
  · split at h
    · obtain ⟨rfl, rfl⟩ := inj h
      exact still rfl rfl
    · rename_i hok
      obtain ⟨rfl, rfl⟩ := inj h
      exact .quiet (setMode_quiet (Answer.result_ok hok)) rfl fun _ => .inl (by rw [hp]; rfl)
  · split at h <;> obtain ⟨rfl, rfl⟩ := inj h
    · exact still rfl rfl
    · exact .quiet ⟨rfl, rfl, fun _ => rfl⟩ rfl fun _ => .inl (by rw [hp]; rfl)
  · split at h
    · obtain ⟨rfl, rfl⟩ := inj h
      exact still rfl rfl
    · rename_i hok
      obtain ⟨rfl, rfl⟩ := inj h
      have hren := Answer.result_ok hok
      split_ifs at hren
      refine .rename hp ?_ hren
      split_ifs <;> rfl
  · obtain ⟨rfl, rfl⟩ := inj h
    split_ifs
    · unfold Fs.unlink
      rcases fs.file (st.stagingPath call.digest) with _ | i
      · exact still rfl rfl
      · exact .unlink rfl
    · exact still rfl rfl
  · obtain ⟨rfl, rfl⟩ := inj h
    exact still rfl rfl
  · exact absurd h (by simp)

end Advance

section Invariant

/-- What holds of one call: it holds its staging file alone, with what it has written so far. -/
structure CallOk (b3 : Blake3) (st : ObjectStore) (fs : Files) (c : Call) : Prop where
  names : Names b3 c.digest c.content
  open_lt : ∀ {fd k}, c.phase.descriptor = some (fd, k) → fd < fs.next
  open_content : ∀ {fd k}, c.phase.descriptor = some (fd, k) →
    k ≤ c.content.length ∧ (fs.inode fd).content = c.content.take k
  open_name : ∀ {fd k}, c.phase.descriptor = some (fd, k) → ∀ p, fs.file p = some fd →
    p = st.stagingPath c.digest
  staged_open : ∀ {fd k}, c.phase.descriptor = some (fd, k) →
    ∀ i, fs.file (st.stagingPath c.digest) = some i → i = fd
  staged_written : c.phase.written = true → ∀ i, fs.file (st.stagingPath c.digest) = some i →
    (fs.inode i).content = c.content

/-- A path of the staging area. -/
def Staged (st : ObjectStore) (p : Path) : Prop := ∃ d, p = st.stagingPath d

theorem objectPath_not_staged (d : Digest) : ¬ Staged st (st.objectPath d) := fun ⟨d', h⟩ =>
  st.stagingPath_ne d' d h.symm

/-- The invariant of a run. -/
structure Whole (b3 : Blake3) (st : ObjectStore) (s : Inserts) : Prop where
  separate : Separate (Staged st) s.fs
  visible : ∀ d i, s.fs.file (st.objectPath d) = some i → Names b3 d (s.fs.inode i).content
  call : ∀ {who c}, s.calls who = some c → CallOk b3 st s.fs c
  one : ∀ {who who' c c'}, s.calls who = some c → s.calls who' = some c' →
    c.phase.inFlight = true → c'.phase.inFlight = true → c.digest = c'.digest → who = who'
  fds : ∀ {who who' c c' fd k k'}, s.calls who = some c → s.calls who' = some c' →
    c.phase.descriptor = some (fd, k) → c'.phase.descriptor = some (fd, k') → who = who'

theorem inFlight_of_descriptor {p : Phase} {x : ℕ × ℕ} (h : p.descriptor = some x) :
    p.inFlight = true := by simp [Phase.inFlight, h]

theorem inFlight_of_written {p : Phase} (h : p.written = true) : p.inFlight = true := by
  simp [Phase.inFlight, h]

theorem idle_iff {p : Phase} : p.inFlight = false ↔ p.descriptor = none ∧ p.written = false := by
  simp [Phase.inFlight]

theorem CallOk.idle {fs : Files} {c : Call} (hn : Names b3 c.digest c.content)
    (h : c.phase.inFlight = false) : CallOk b3 st fs c := by
  obtain ⟨hd, hw⟩ := idle_iff.1 h
  constructor <;> simp [hd, hw, hn]

/-- What a call that is writing needs: the front of its content in a file that only the staging path
names. -/
theorem CallOk.writing {fs : Files} {c : Call} {fd k : ℕ} (hn : Names b3 c.digest c.content)
    (hlt : fd < fs.next) (hk : k ≤ c.content.length)
    (hcontent : (fs.inode fd).content = c.content.take k)
    (hname : ∀ p, fs.file p = some fd → p = st.stagingPath c.digest)
    (hstaged : ∀ i, fs.file (st.stagingPath c.digest) = some i → i = fd) :
    CallOk b3 st fs { c with phase := .write fd k } := by
  refine ⟨hn, fun hd => ?_, fun hd => ?_, fun hd p hp => ?_, fun hd i hi => ?_, by
    simp [Phase.written]⟩
  all_goals
    simp only [Phase.descriptor, Option.some.injEq, Prod.mk.injEq] at hd
    obtain ⟨rfl, rfl⟩ := hd
  · exact hlt
  · exact ⟨hk, hcontent⟩
  · exact hname p hp
  · exact hstaged i hi

/-- A call keeps what holds of it where its own file and its own name are left alone. -/
theorem CallOk.frame {fs fs' : Files} {c : Call} (h : CallOk b3 st fs c) (hn : fs.next ≤ fs'.next)
    (hfd : ∀ {fd k}, c.phase.descriptor = some (fd, k) →
      (fs'.inode fd).content = (fs.inode fd).content ∧
        ∀ p, fs'.file p = some fd → fs.file p = some fd)
    (hst : c.phase.inFlight = true → ∀ i, fs'.file (st.stagingPath c.digest) = some i →
      fs.file (st.stagingPath c.digest) = some i ∧
        (fs'.inode i).content = (fs.inode i).content) : CallOk b3 st fs' c := by
  refine ⟨h.names, fun hd => (h.open_lt hd).trans_le hn,
    fun hd => ⟨(h.open_content hd).1, (hfd hd).1.trans (h.open_content hd).2⟩,
    fun hd p hp => h.open_name hd p ((hfd hd).2 p hp),
    fun hd i hi => h.staged_open hd i (hst (inFlight_of_descriptor hd) i hi).1,
    fun hw i hi => ?_⟩
  obtain ⟨hf, hcontent⟩ := hst (inFlight_of_written hw) i hi
  exact hcontent.trans (h.staged_written hw i hf)

/-- The invariant after one call has moved, from what the move did to the files. -/
theorem Whole.move {s : Inserts} (h : Whole b3 st s) {who : ℕ} {c : Call}
    {fs' : Files} {phase : Phase} (hsep : Separate (Staged st) fs')
    (hvis : ∀ d i, fs'.file (st.objectPath d) = some i → Names b3 d (fs'.inode i).content)
    (hself : CallOk b3 st fs' { c with phase })
    (hothers : ∀ {who' c'}, who' ≠ who → s.calls who' = some c' → CallOk b3 st fs' c')
    (hone : phase.inFlight = true → ∀ {who' c'}, who' ≠ who → s.calls who' = some c' →
      c'.phase.inFlight = true → c'.digest ≠ c.digest)
    (hfds : ∀ {fd k}, phase.descriptor = some (fd, k) → ∀ {who' c' k'}, who' ≠ who →
      s.calls who' = some c' → c'.phase.descriptor ≠ some (fd, k')) :
    Whole b3 st ⟨fs', Function.update s.calls who (some { c with phase })⟩ where
  separate := hsep
  visible := hvis
  call {w x} hx := by
    simp only [Function.update_apply] at hx
    split_ifs at hx with hw
    · exact Option.some.inj hx ▸ hself
    · exact hothers hw hx
  one {w w' x x'} hx hx' hi hi' hd := by
    simp only [Function.update_apply] at hx hx'
    split_ifs at hx hx' with h1 h2 h2
    · rw [h1, h2]
    · rw [← Option.some.inj hx] at hi hd
      exact absurd hd.symm (hone hi h2 hx' hi')
    · rw [← Option.some.inj hx'] at hi' hd
      exact absurd hd (hone hi' h1 hx hi)
    · exact h.one hx hx' hi hi' hd
  fds {w w' x x' fd k k'} hx hx' hd hd' := by
    simp only [Function.update_apply] at hx hx'
    split_ifs at hx hx' with h1 h2 h2
    · rw [h1, h2]
    · rw [← Option.some.inj hx] at hd
      exact absurd hd' (hfds hd h2 hx')
    · rw [← Option.some.inj hx'] at hd'
      exact absurd hd (hfds hd' h1 hx)
    · exact h.fds hx hx' hd hd'

/-- A call opens a staging path only while no other insert of that digest is in flight. -/
def Alone (s : Inserts) : Turn → Prop
  | .start .. => True
  | .move who _ => ∀ c, s.calls who = some c → c.phase = .create → ∀ who' c', who' ≠ who →
      s.calls who' = some c' → c'.phase.inFlight = true → c'.digest ≠ c.digest

theorem quiet_whole {s : Inserts} (h : Whole b3 st s) {who : ℕ} {c : Call}
    (hc : s.calls who = some c) {fs' : Files} {phase : Phase} (hq : Quiet s.fs fs')
    (hd : phase.descriptor = none)
    (hw : phase.written = true → c.phase.written = true ∨
      ∃ fd k, c.phase = .write fd k ∧ c.content.length ≤ k) :
    Whole b3 st ⟨fs', Function.update s.calls who (some { c with phase })⟩ := by
  have hself := h.call hc
  have hfly : phase.inFlight = true → c.phase.inFlight = true := fun hi => by
    rcases hw (by simpa [Phase.inFlight, hd] using hi) with hw | ⟨fd, k, hp, -⟩
    · exact inFlight_of_written hw
    · rw [hp]
      rfl
  refine h.move (h.separate.of_same hq.file hq.next.ge) (fun d i hi => ?_) ?_ (fun _ hc' => ?_)
    (fun hi who' c' hne hc' hi' hdig => hne (h.one hc' hc hi' (hfly hi) hdig)) (by simp [hd])
  · rw [hq.content]
    exact h.visible d i (hq.file ▸ hi)
  · refine ⟨hself.names, by simp [hd], by simp [hd], by simp [hd], by simp [hd], fun hw' i hi => ?_⟩
    rw [hq.file] at hi
    rw [hq.content]
    rcases hw hw' with hold | ⟨fd, k, hp, hk⟩
    · exact hself.staged_written hold i hi
    · have hdesc : c.phase.descriptor = some (fd, k) := by rw [hp]; rfl
      rw [hself.staged_open hdesc i hi, (hself.open_content hdesc).2, List.take_of_length_le hk]
  · exact (h.call hc').frame hq.next.ge
      (fun _ => ⟨hq.content _, fun p hp => hq.file ▸ hp⟩)
      (fun _ i hi => ⟨hq.file ▸ hi, hq.content i⟩)

theorem setFile_idle_whole {s : Inserts} (h : Whole b3 st s) {who : ℕ} {c : Call}
    (hc : s.calls who = some c) {phase : Phase} (hi : phase.inFlight = false) :
    Whole b3 st ⟨s.fs.setFile (st.stagingPath c.digest) none,
      Function.update s.calls who (some { c with phase })⟩ := by
  have hfile : ∀ {p i}, (s.fs.setFile (st.stagingPath c.digest) none).file p = some i →
      s.fs.file p = some i := fun {p i} hp => by
    simp only [Fs.setFile, Function.update_apply] at hp
    split_ifs at hp
    exact hp
  obtain ⟨hd, -⟩ := idle_iff.1 hi
  refine h.move (h.separate.unlink _) (fun d i hp => h.visible d i (hfile hp))
    (.idle (h.call hc).names hi) (fun _ hc' => ?_) (by simp [hi]) (by simp [hd])
  exact (h.call hc').frame le_rfl (fun _ => ⟨rfl, fun p => hfile⟩) (fun _ i hp => ⟨hfile hp, rfl⟩)

/-- Emptying or writing the file under a call's staging path leaves the other calls alone, if none
in flight is an insert of the same digest. -/
theorem setInode_frame {s : Inserts} (h : Whole b3 st s) {d : Digest} {i : ℕ} {inode : Inode}
    (hname : ∀ p, s.fs.file p = some i → p = st.stagingPath d) {who' : ℕ} {c' : Call}
    (hc' : s.calls who' = some c')
    (hfd : ∀ {k}, c'.phase.descriptor ≠ some (i, k))
    (hne : c'.phase.inFlight = true → c'.digest ≠ d) :
    CallOk b3 st (s.fs.setInode i inode) c' := by
  refine (h.call hc').frame le_rfl (fun {fd k} hd => ⟨?_, fun p hp => hp⟩) fun hi j hj => ⟨hj, ?_⟩
  · have hne : fd ≠ i := fun he => hfd (he ▸ hd)
    simp [Fs.setInode, Function.update_of_ne hne]
  · have hji : j ≠ i := fun he => hne hi (st.stagingPath_inj (hname _ (he ▸ hj)))
    simp [Fs.setInode, Function.update_of_ne hji]

theorem visible_setInode {s : Inserts} (h : Whole b3 st s) {d : Digest} {i : ℕ} {inode : Inode}
    (hname : ∀ p, s.fs.file p = some i → p = st.stagingPath d) (d' : Digest) (j : ℕ)
    (hj : (s.fs.setInode i inode).file (st.objectPath d') = some j) :
    Names b3 d' ((s.fs.setInode i inode).inode j).content := by
  have hji : j ≠ i := fun he => st.stagingPath_ne d d' (hname _ (he ▸ hj)).symm
  simp only [Fs.setInode, Function.update_of_ne hji]
  exact h.visible d' j hj

theorem create_whole {s : Inserts} (h : Whole b3 st s) {who : ℕ} {c : Call}
    (hc : s.calls who = some c) {fs' : Files} {fd : ℕ}
    (halone : ∀ who' c', who' ≠ who → s.calls who' = some c' → c'.phase.inFlight = true →
      c'.digest ≠ c.digest)
    (ho : s.fs.openTruncate privileged createMode (st.stagingPath c.digest) = some (fs', fd)) :
    Whole b3 st ⟨fs', Function.update s.calls who (some { c with phase := .write fd 0 })⟩ := by
  have hself := (h.call hc).names
  unfold Fs.openTruncate at ho
  rcases hi : s.fs.file (st.stagingPath c.digest) with _ | i
  · simp only [hi, Option.some.injEq, Prod.mk.injEq] at ho
    obtain ⟨rfl, rfl⟩ := ho
    have hfile : ∀ {p j}, (s.fs.create (st.stagingPath c.digest) ⟨[], createMode⟩).file p = some j →
        p ≠ st.stagingPath c.digest → s.fs.file p = some j := fun hp hne => by
      simpa [Fs.create, Fs.setFile, Fs.setInode, Function.update_of_ne hne] using hp
    have hinode : ∀ {j}, j < s.fs.next →
        (s.fs.create (st.stagingPath c.digest) ⟨[], createMode⟩).inode j = s.fs.inode j :=
      fun hj => by simp [Fs.create, Fs.setFile, Fs.setInode, Function.update_of_ne hj.ne]
    refine h.move (h.separate.create _ _) (fun d j hj => ?_) ?_ (fun {who' c'} hne hc' => ?_)
      (fun _ {who' c'} hne hc' hi' => halone who' c' hne hc' hi')
      (fun {fd k} hd {who' c' k'} hne hc' hd' => ?_)
    · have hold := hfile hj (st.stagingPath_ne c.digest d).symm
      rw [hinode (h.separate.lt_next hold)]
      exact h.visible d j hold
    · refine CallOk.writing hself ?_ (Nat.zero_le _) ?_ (fun p hp => ?_) fun j hj => ?_
      · simp [Fs.create]
      · simp [Fs.create, Fs.setFile, Fs.setInode]
      · by_contra hne
        exact absurd (h.separate.lt_next (hfile hp hne)) (by simp)
      · simpa [Fs.create, Fs.setFile, eq_comm] using hj
    · refine (h.call hc').frame (by simp [Fs.create]) (fun {fd k} hd => ⟨?_, fun p hp => ?_⟩)
        fun hi' j hj => ?_
      · rw [hinode ((h.call hc').open_lt hd)]
      · refine hfile hp fun he => ?_
        have hlt := (h.call hc').open_lt hd
        rw [he] at hp
        simp [Fs.create, Fs.setFile] at hp
        omega
      · have hold := hfile hj fun he => halone who' c' hne hc' hi' (st.stagingPath_inj he)
        exact ⟨hold, by rw [hinode (h.separate.lt_next hold)]⟩
    · have hlt := (h.call hc').open_lt hd'
      simp only [Phase.descriptor, Option.some.injEq, Prod.mk.injEq] at hd
      omega
  · simp only [hi] at ho
    split_ifs at ho
    simp only [Option.some.injEq, Prod.mk.injEq] at ho
    obtain ⟨rfl, rfl⟩ := ho
    have hname : ∀ p, s.fs.file p = some i → p = st.stagingPath c.digest := fun p hp =>
      h.separate.sole ⟨_, rfl⟩ hi hp
    -- no other call has this file open: its name would be that call's staging path too
    have hfd : ∀ {who' c' k}, who' ≠ who → s.calls who' = some c' →
        c'.phase.descriptor ≠ some (i, k) := fun {who' c' k} hne hc' hd =>
      halone who' c' hne hc' (inFlight_of_descriptor hd)
        (st.stagingPath_inj ((h.call hc').open_name hd _ hi)).symm
    refine h.move (h.separate.setInode _ _) (visible_setInode h hname) ?_
      (fun {who' c'} hne hc' => setInode_frame h hname hc' (hfd hne hc') (halone who' c' hne hc'))
      (fun _ {who' c'} hne hc' hi' => halone who' c' hne hc' hi')
      (fun {fd k} hd {who' c' k'} hne hc' => ?_)
    · refine CallOk.writing hself (h.separate.lt_next hi) (Nat.zero_le _) ?_ hname fun j hj => ?_
      · simp [Fs.setInode]
      · exact Option.some.inj (hj.symm.trans hi)
    · simp only [Phase.descriptor, Option.some.injEq, Prod.mk.injEq] at hd
      exact hd.1 ▸ hfd hne hc'

theorem take_append_take_drop (l : List UInt8) (k n : ℕ) :
    l.take k ++ (l.drop k).take n = l.take (k + ((l.drop k).take n).length) := by
  rw [List.take_add, List.length_take]
  congr 1
  rw [← List.take_take, List.take_length]

theorem write_whole {s : Inserts} (h : Whole b3 st s) {who : ℕ} {c : Call}
    (hc : s.calls who = some c) {fd k n : ℕ} (hp : c.phase = .write fd k) :
    Whole b3 st ⟨s.fs.write fd k ((c.content.drop k).take n), Function.update s.calls who
      (some { c with phase := .write fd (k + ((c.content.drop k).take n).length) })⟩ := by
  have hself := h.call hc
  have hdesc : c.phase.descriptor = some (fd, k) := by rw [hp]; rfl
  obtain ⟨hk, hcontent⟩ := hself.open_content hdesc
  have hname := hself.open_name hdesc
  have hfly := inFlight_of_descriptor hdesc
  have hfd : ∀ {who' c' k'}, who' ≠ who → s.calls who' = some c' →
      c'.phase.descriptor ≠ some (fd, k') := fun hne hc' hd => hne (h.fds hc' hc hd hdesc)
  have hone : ∀ {who' c'}, who' ≠ who → s.calls who' = some c' → c'.phase.inFlight = true →
      c'.digest ≠ c.digest := fun hne hc' hi' hd => hne (h.one hc' hc hi' hfly hd)
  unfold Fs.write
  refine h.move (h.separate.setInode _ _) (visible_setInode h hname) ?_
    (fun hne hc' => setInode_frame h hname hc' (hfd hne hc') (hone hne hc'))
    (fun _ => hone) (fun {fd' k'} hd {who' c' k''} hne hc' => ?_)
  · refine CallOk.writing hself.names (hself.open_lt hdesc) ?_ ?_ hname (hself.staged_open hdesc)
    · simp only [List.length_take, List.length_drop]
      omega
    · have hlen : (s.fs.inode fd).content.length = k := by
        rw [hcontent, List.length_take, Nat.min_eq_left hk]
      have hend := overwrite_end (s.fs.inode fd).content ((c.content.drop k).take n)
      rw [hlen, hcontent] at hend
      simp only [Fs.setInode, Function.update_self, hcontent, hend]
      exact take_append_take_drop _ _ _
  · simp only [Phase.descriptor, Option.some.injEq, Prod.mk.injEq] at hd
    exact hd.1 ▸ hfd hne hc'

theorem rename_whole {s : Inserts} (h : Whole b3 st s) {who : ℕ} {c : Call}
    (hc : s.calls who = some c) {fs' : Files} {phase : Phase} (hp : c.phase = .commit)
    (hi : phase.inFlight = false)
    (hr : s.fs.rename (st.stagingPath c.digest) (st.objectPath c.digest) = some fs') :
    Whole b3 st ⟨fs', Function.update s.calls who (some { c with phase })⟩ := by
  have hself := h.call hc
  have hwritten : c.phase.written = true := by rw [hp]; rfl
  simp only [Fs.rename, Option.map_eq_some_iff] at hr
  obtain ⟨i, hstaged, rfl⟩ := hr
  obtain ⟨hd, -⟩ := idle_iff.1 hi
  -- what is visible under a path other than the object's was there before
  have hfile : ∀ {p j}, ((s.fs.setFile (st.stagingPath c.digest) none).setFile
      (st.objectPath c.digest) (some i)).file p = some j → p ≠ st.objectPath c.digest →
        s.fs.file p = some j := fun {p j} hp hne => by
    simp only [Fs.setFile, Function.update_of_ne hne, Function.update_apply] at hp
    split_ifs at hp
    exact hp
  refine h.move (h.separate.rename ⟨_, rfl⟩ (objectPath_not_staged _) hstaged) (fun d j hj => ?_)
    (.idle hself.names hi) (fun {who' c'} hne hc' => ?_) (by simp [hi]) (by simp [hd])
  · by_cases hdd : st.objectPath d = st.objectPath c.digest
    · have hdc := st.objectPath_inj hdd
      subst hdc
      have hij : i = j := by simpa [Fs.setFile] using hj
      subst hij
      exact (hself.staged_written hwritten i hstaged).symm ▸ hself.names
    · exact h.visible d j (hfile hj hdd)
  · refine (h.call hc').frame le_rfl (fun {fd k} hd' => ⟨rfl, fun p hp' => ?_⟩) fun _ j hj =>
      ⟨hfile hj (st.stagingPath_ne _ _), rfl⟩
    refine hfile hp' fun he => ?_
    have hfi : i = fd := by simpa [Fs.setFile, he] using hp'
    have hpath := (h.call hc').open_name hd' _ (hfi ▸ hstaged)
    exact hne (h.one hc' hc (inFlight_of_descriptor hd') (inFlight_of_written hwritten)
      (st.stagingPath_inj hpath).symm)

/-- What one step keeps, whichever call it moves. -/
theorem turn_whole {s s' : Inserts} {t : Turn} (h : Whole b3 st s) (halone : Alone s t)
    (ht : st.turn b3 privileged s t = some s') : Whole b3 st s' := by
  cases t with
  | start who request =>
    simp only [turn] at ht
    split at ht
    · exact absurd ht (by simp)
    · rename_i hnone
      rw [Option.some.injEq] at ht
      subst ht
      let c : Call := ⟨request.digest b3, request.content, .check⟩
      have hidle : Phase.check.inFlight = false := rfl
      refine h.move (c := c) h.separate h.visible (CallOk.idle ?_ hidle)
        (fun _ hc' => h.call hc') (by simp [hidle]) (by simp [Phase.descriptor])
      cases request with
      | bytes b => exact .inl rfl
      | tree t => exact .inr rfl
  | move who a =>
    simp only [turn] at ht
    rcases hc : s.calls who with _ | c
    · simp [hc] at ht
    · rcases ha : st.advance privileged c s.fs a with _ | ⟨fs', phase⟩
      · simp [hc, ha] at ht
      · have he := advance_effect ha
        simp only [hc, ha, Option.bind_eq_bind, Option.bind_some, Option.pure_def,
          Option.some.injEq] at ht
        subst ht
        cases he with
        | quiet hq hd hw => exact quiet_whole h hc hq hd hw
        | create hp ho => exact create_whole h hc (halone c hc hp) ho
        | write hp => exact write_whole h hc hp
        | rename hp hi hr => exact rename_whole h hc hp hi hr
        | unlink hi => exact setFile_idle_whole h hc hi

/-- No staging file is shared, and every object holds content that its digest names. -/
structure Settled (b3 : Blake3) (st : ObjectStore) (fs : Files) : Prop where
  separate : Separate (Staged st) fs
  visible : ∀ d i, fs.file (st.objectPath d) = some i → Names b3 d (fs.inode i).content

/-- In a run from a settled store that opens no staging path while another insert of that digest is
in flight, every object is whole in every state. -/
theorem objects_whole {fs : Files} (h : Settled b3 st fs) {turns : List Turn} {s : Inserts}
    (hok : Runs.AllSteps (st.turn b3 privileged) Alone ⟨fs, fun _ => none⟩ turns)
    (hv : Runs.Visits (st.turn b3 privileged) ⟨fs, fun _ => none⟩ turns s) {d : Digest} {i : ℕ}
    (hi : s.fs.file (st.objectPath d) = some i) : Names b3 d (s.fs.inode i).content := by
  have hstart : Whole b3 st ⟨fs, fun _ => none⟩ :=
    ⟨h.separate, h.visible, by simp, by simp, by simp⟩
  exact (Runs.visited_keeps (fun _ _ _ hI hA hs => turn_whole hI hA hs) hstart hok hv).visible d i hi

end Invariant

section Sample

/-- A store that was just opened. -/
def emptyFiles : Files := ⟨fun _ => ⟨[], createMode⟩, 0, fun _ => none, fun _ => false⟩

theorem emptyFiles_settled : Settled b3 st emptyFiles :=
  ⟨⟨fun _ h => absurd h (by simp [emptyFiles]), fun h => absurd h (by simp [emptyFiles])⟩,
    fun _ _ h => absurd h (by simp [emptyFiles])⟩

/-- The system does what it is asked. -/
def go (who : ℕ) : Turn := .move who ⟨none, 4096⟩

/-- Two puts of one byte. The second opens the staging file after the first has written it, and the
first renames it before the second writes. -/
def sharedTurns : List Turn :=
  [.start 0 (.bytes [120]), .start 1 (.bytes [120]), go 0, go 1, go 0, go 0, go 1, go 0, go 0, go 0,
    go 0, go 0]

theorem objects_not_whole :
    ∃ s i, Runs.Visits (sampleStore.turn sampleBlake3 false) ⟨emptyFiles, fun _ => none⟩
        sharedTurns s
      ∧ s.fs.file (sampleStore.objectPath sampleBlob) = some i
      ∧ ¬ Names sampleBlake3 sampleBlob (s.fs.inode i).content := by
  have hrun : ((Runs.exec (sampleStore.turn sampleBlake3 false) ⟨emptyFiles, fun _ => none⟩
      sharedTurns).bind fun s => (s.fs.file (sampleStore.objectPath sampleBlob)).map fun i =>
        (s.fs.inode i).content) = some [] := by decide +kernel
  have hempty : ¬ Names sampleBlake3 sampleBlob [] := by
    unfold Names
    decide +kernel
  obtain ⟨s, hs, hfile⟩ := Option.bind_eq_some_iff.1 hrun
  obtain ⟨i, hi, hcontent⟩ := Option.map_eq_some_iff.1 hfile
  exact ⟨s, i, ⟨sharedTurns, [], (List.append_nil _).symm, hs⟩, hi, hcontent ▸ hempty⟩

/-- The number of the call a turn is about. -/
def Turn.who : Turn → ℕ
  | .start who _ => who
  | .move who _ => who

/-- A call that runs on its own never shares a staging path. -/
theorem allSteps_lone {who : ℕ} : ∀ {turns : List Turn} {s : Inserts},
    (∀ t ∈ turns, t.who = who) → (∀ w, w ≠ who → s.calls w = none) →
      Runs.AllSteps (st.turn b3 privileged) Alone s turns
  | [], _, _, _ => trivial
  | t :: turns, s, ht, hs => by
    have hwho : t.who = who := ht t List.mem_cons_self
    refine ⟨?_, fun s' hs' => allSteps_lone (fun t h => ht t (List.mem_cons_of_mem _ h))
      fun w hw => ?_⟩
    · cases t with
      | start w r => trivial
      | move w a =>
        subst hwho
        exact fun c _ _ w' c' hne hc' => absurd hc' (by simp [hs w' hne])
    · cases t with
      | start w' r =>
        subst hwho
        simp only [turn] at hs'
        split at hs'
        · simp at hs'
        · rw [← Option.some.inj hs']
          exact (Function.update_of_ne (show w ≠ w' from hw) _ _).trans (hs w hw)
      | move w' a =>
        subst hwho
        simp only [turn] at hs'
        obtain ⟨c, -, hs'⟩ := Option.bind_eq_some_iff.1 hs'
        obtain ⟨x, -, hs'⟩ := Option.bind_eq_some_iff.1 hs'
        rw [← Option.some.inj hs']
        exact (Function.update_of_ne (show w ≠ w' from hw) _ _).trans (hs w hw)

/-- One put from start to end. -/
theorem one_put_whole :
    ∃ s i, Runs.exec (sampleStore.turn sampleBlake3 false) ⟨emptyFiles, fun _ => none⟩
        (.start 0 (.bytes [120]) :: List.replicate 8 (go 0)) = some s
      ∧ s.fs.file (sampleStore.objectPath sampleBlob) = some i
      ∧ Names sampleBlake3 sampleBlob (s.fs.inode i).content := by
  have hrun : ((Runs.exec (sampleStore.turn sampleBlake3 false) ⟨emptyFiles, fun _ => none⟩
      (.start 0 (.bytes [120]) :: List.replicate 8 (go 0))).bind fun s =>
        s.fs.file (sampleStore.objectPath sampleBlob)) = some 0 := by decide +kernel
  obtain ⟨s, hs, hi⟩ := Option.bind_eq_some_iff.1 hrun
  have hlone : ∀ t ∈ Turn.start 0 (.bytes [120]) :: List.replicate 8 (go 0), t.who = 0 :=
    fun t ht => by
      rcases List.mem_cons.1 ht with rfl | ht
      · rfl
      · rw [List.eq_of_mem_replicate ht]
        rfl
  exact ⟨s, 0, hs, hi, objects_whole emptyFiles_settled (allSteps_lone hlone fun _ _ => rfl)
    ⟨_, [], (List.append_nil _).symm, hs⟩ hi⟩

end Sample

end ObjectStore

end Jetrun
