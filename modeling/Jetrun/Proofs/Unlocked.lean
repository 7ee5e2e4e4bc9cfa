import Jetrun.Proofs.Racing
import Jetrun.Unlocked

/-!
# What a collection leaves alone

What stands at the staging path of an insert, it or another one has written to since it looked for
its object: the invariant of a run (`Tracked`). So an insert is a writer that fills the place of its
object with a stamp no older than its look (`putStep_places`), and a collection is a sweeper
(`goes_places`). What is known of these without a lock then holds of the store (`young_kept`).
-/

namespace Jetrun

namespace Stage

variable {σ σ' : Stage} {fd : ℕ}

theorem staged_of_descriptor (h : σ.descriptor = some fd) : σ.staged = true := by
  cases σ <;> first | rfl | cases h

theorem pending_of_staged (h : σ.staged = true) : σ.pending = true := by
  cases σ <;> first | rfl | cases h

end Stage

open Inodes ObjectStore

variable {b3 : Blake3} {st : ObjectStore} {privileged : Bool}

section PutSteps

variable {fs fs' : Files} {a : Answer} {d : Digest}

/-- All that one step of an insert can do. -/
inductive PutStep (st : ObjectStore) (a : Answer) (d : Digest) (fs : Files) :
    Stage → Files → Stage → Prop
  | rest {σ σ' fs'} (hquiet : Quiet fs fs') (htouched : σ.touched σ' = none)
    (hpending : σ'.pending = true → σ.pending = true)
    (hstaged : σ'.staged = true → σ.staged = true) (hcommit : σ = .committing → σ' = .cleaning) :
    PutStep st a d fs σ fs' σ'
  | miss (hempty : a.fault = none → fs.file (st.objectPath d) = none) :
    PutStep st a d fs .looking fs .missed
  | reopen {σ σ' fd inode} (hσ : σ = .missed) (hfd : σ'.descriptor = some fd)
    (hfile : fs.file (st.stagingPath d) = some fd) : PutStep st a d fs σ (fs.setInode fd inode) σ'
  | create {σ σ' inode} (hσ : σ = .missed) (hfd : σ'.descriptor = some fs.next)
    (hfree : fs.file (st.stagingPath d) = none) :
    PutStep st a d fs σ (fs.create (st.stagingPath d) inode) σ'
  | write {σ σ' fd inode} (hfd : σ.descriptor = some fd) (htouched : σ.touched σ' = some fd)
    (hstaged : σ'.staged = true) : PutStep st a d fs σ (fs.setInode fd inode) σ'
  | rename {fd} (hfile : fs.file (st.stagingPath d) = some fd) :
    PutStep st a d fs .committing
      ((fs.setFile (st.stagingPath d) none).setFile (st.objectPath d) (some fd)) .ended
  | unlink {σ σ'} (hσ' : σ'.staged = false) (hpending : σ'.pending = true → σ.pending = true)
    (hcommit : σ ≠ .committing) : PutStep st a d fs σ (fs.setFile (st.stagingPath d) none) σ'

theorem putStep_openTruncate {σ' : Stage} {mode fd : ℕ} (hfd : σ'.descriptor = some fd)
    (h : fs.openTruncate privileged mode (st.stagingPath d) = some (fs', fd)) (content : Inode) :
    PutStep st a d fs .missed fs' σ' ∧ PutStep st a d fs .missed (fs'.setInode fd content) σ' := by
  unfold Fs.openTruncate at h
  rcases hfile : fs.file (st.stagingPath d) with _ | i
  · simp only [hfile, Option.some.injEq, Prod.mk.injEq] at h
    obtain ⟨rfl, rfl⟩ := h
    refine ⟨.create rfl hfd hfile, ?_⟩
    have hagain : (fs.create (st.stagingPath d) ⟨[], mode⟩).setInode fs.next content
        = fs.create (st.stagingPath d) content := by
      simp [Fs.create, Fs.setFile, Fs.setInode]
    rw [hagain]
    exact .create rfl hfd hfile
  · simp only [hfile] at h
    split_ifs at h
    obtain ⟨rfl, rfl⟩ := Prod.mk.injEq .. ▸ Option.some.inj h
    refine ⟨.reopen rfl hfd hfile, ?_⟩
    have hagain (inode : Inode) :
        (fs.setInode i inode).setInode i content = fs.setInode i content := by
      simp [Fs.setInode]
    rw [hagain]
    exact .reopen rfl hfd hfile

theorem putStep_still {σ σ' : Stage} (htouched : σ.touched σ' = none)
    (hpending : σ'.pending = true → σ.pending = true)
    (hstaged : σ'.staged = true → σ.staged = true) (hcommit : σ = .committing → σ' = .cleaning) :
    PutStep st a d fs σ fs σ' :=
  .rest (.refl fs) htouched hpending hstaged hcommit

/-- An insert that ends, or fails, with nothing done. -/
theorem putStep_ended {σ : Stage} (hcommit : σ ≠ .committing) : PutStep st a d fs σ fs .ended := by
  refine putStep_still ?_ (fun h => by cases h) (fun h => by cases h) (absurd · hcommit)
  cases σ <;> rfl

/-- One system call of `insert_staged` or `seal_and_commit`. -/
theorem advance_putStep {call : Call} {phase : Phase}
    (h : st.advance privileged call fs a = some (fs', phase)) :
    PutStep st a call.digest fs call.phase.stage fs' phase.stage := by
  have inj : ∀ {x : Files × Phase}, some x = some (fs', phase) → fs' = x.1 ∧ phase = x.2 :=
    fun hx => by rw [Option.some.injEq] at hx; exact ⟨by rw [hx], by rw [hx]⟩
  rcases hp : call.phase with _ | _ | ⟨fd, k⟩ | _ | _ | _ | _ | _ | e | _ | r <;>
    simp only [ObjectStore.advance, hp] at h
  · -- `has`
    split_ifs at h with hthere
    · obtain ⟨rfl, rfl⟩ := inj h
      exact putStep_ended (by decide)
    · obtain ⟨rfl, rfl⟩ := inj h
      exact .miss fun hf => Option.not_isSome_iff_eq_none.1 fun hsome => hthere ⟨hf, hsome⟩
  · split at h
    · obtain ⟨rfl, rfl⟩ := inj h
      exact putStep_ended (by decide)
    · rename_i hok
      obtain ⟨rfl, rfl⟩ := inj h
      exact (putStep_openTruncate rfl (Answer.result_ok hok) ⟨[], 0⟩).1
  · by_cases hk : k < call.content.length
    · simp only [if_pos hk] at h
      rcases hf : a.fault with _ | e <;> simp only [hf] at h
      · split_ifs at h
        · obtain ⟨rfl, rfl⟩ := inj h
          exact putStep_ended (by simp [Phase.stage])
        · obtain ⟨rfl, rfl⟩ := inj h
          exact .write rfl rfl rfl
      · obtain ⟨rfl, rfl⟩ := inj h
        exact putStep_ended (by simp [Phase.stage])
    · simp only [if_neg hk] at h
      obtain ⟨rfl, rfl⟩ := inj h
      split_ifs <;> exact putStep_still rfl (fun _ => rfl) (fun _ => rfl) (fun h => by cases h)
  · split at h <;> obtain ⟨rfl, rfl⟩ := inj h
    · exact putStep_ended (by decide)
    · exact putStep_still rfl (fun _ => rfl) (fun _ => rfl) (fun h => by cases h)
  · split at h <;> obtain ⟨rfl, rfl⟩ := inj h
    · exact putStep_ended (by decide)
    · exact putStep_still rfl (fun _ => rfl) (fun _ => rfl) (fun h => by cases h)
  · split at h
    · obtain ⟨rfl, rfl⟩ := inj h
      exact putStep_ended (by decide)
    · rename_i hok
      obtain ⟨rfl, rfl⟩ := inj h
      exact .rest (setMode_quiet (Answer.result_ok hok)) rfl (fun _ => rfl) (fun _ => rfl)
        fun h => by cases h
  · split at h <;> obtain ⟨rfl, rfl⟩ := inj h
    · exact putStep_ended (by decide)
    · exact .rest ⟨rfl, rfl, fun _ => rfl⟩ rfl (fun _ => rfl) (fun _ => rfl) fun h => by cases h
  · split at h
    · obtain ⟨rfl, rfl⟩ := inj h
      exact putStep_still rfl (fun h => by cases h) (fun h => by cases h) fun _ => rfl
    · rename_i hok
      obtain ⟨rfl, rfl⟩ := inj h
      have hren := Answer.result_ok hok
      split_ifs at hren
      obtain ⟨fd, hfile, rfl⟩ := Option.map_eq_some_iff.1 hren
      split_ifs <;> exact .rename hfile
  · obtain ⟨rfl, rfl⟩ := inj h
    split_ifs
    · unfold Fs.unlink
      rcases fs.file (st.stagingPath call.digest) with _ | i
      · exact putStep_ended (by simp [Phase.stage])
      · exact .unlink rfl (fun h => by cases h) (by simp [Phase.stage])
    · exact putStep_ended (by simp [Phase.stage])
  · obtain ⟨rfl, rfl⟩ := inj h
    exact putStep_ended (by decide)
  · exact absurd h (by simp)

def FilePhase.stage : FilePhase → Stage
  | placing _ _ p => p.stage
  | finish _ _ p => p.stage
  | _ => .ended

/-- Removing the staging file, whatever comes of it. -/
theorem putStep_drop {σ σ' : Stage} (hσ' : σ'.staged = false)
    (hpending : σ'.pending = true → σ.pending = true) (hcommit : σ ≠ .committing) :
    PutStep st a d fs σ (Ingest.drop fs (st.stagingPath d) a) σ' := by
  have hsame : PutStep st a d fs σ fs σ' := by
    refine putStep_still ?_ hpending (fun h => ?_) (absurd · hcommit)
    · cases σ <;> cases σ' <;> first | rfl | cases hσ'
    · rw [hσ'] at h
      cases h
  unfold Ingest.drop Fs.unlink
  split_ifs
  · rcases fs.file (st.stagingPath d) with _ | i
    · exact hsame
    · exact .unlink hσ' hpending hcommit
  · exact hsame

/-- After a clone that failed the staging file is none of its own. -/
theorem putStep_turnBack {σ : Stage} (s : Ingest) (e : IoError)
    (h : PutStep st a d fs σ s.fs .missed) :
    PutStep st a d fs σ (s.cloneFailed e).1.fs (s.cloneFailed e).2.stage := by
  unfold Ingest.cloneFailed
  split_ifs <;> exact h

theorem place_putStep {path : Path} {caps : Capabilities} {size : ℕ} {phase : FilePhase}
    (p : Placing) :
    let s' := Ingest.place st privileged ⟨path, fs, caps, phase⟩ d size a p
    PutStep st a d fs p.stage s'.fs s'.phase.stage := by
  have hmissed : PutStep st a d fs .missed fs .missed :=
    putStep_still rfl (fun _ => rfl) (fun h => by cases h) (fun h => by cases h)
  cases p with
  | check =>
    simp only [Ingest.place]
    split_ifs with hthere
    · exact putStep_ended (by decide)
    · exact .miss fun hf => Option.not_isSome_iff_eq_none.1 fun hsome => hthere ⟨hf, hsome⟩
  | remove =>
    simp only [Ingest.place]
    split
    · rename_i hok
      obtain ⟨i, -, rfl⟩ := Option.map_eq_some_iff.1 (Answer.result_ok hok)
      split_ifs <;> exact .unlink rfl (fun _ => rfl) (by decide)
    · split_ifs <;> exact hmissed
    · exact hmissed
  | cloneOpen =>
    simp only [Ingest.place]
    split
    · exact hmissed
    · exact putStep_turnBack _ _ hmissed
  | cloneCreate src =>
    simp only [Ingest.place]
    split
    · exact putStep_turnBack _ _ hmissed
    · split_ifs with hthere
      · exact putStep_turnBack _ _ hmissed
      · exact .create rfl rfl (Option.not_isSome_iff_eq_none.1 hthere)
  | clone src dst =>
    simp only [Ingest.place]
    split
    · exact putStep_still rfl (fun _ => rfl) (fun h => by cases h) (fun h => by cases h)
    · exact .write rfl rfl rfl
  | undo e =>
    simp only [Ingest.place]
    exact putStep_turnBack _ _ (putStep_drop rfl (fun _ => rfl) (by simp [Placing.stage]))
  | copyOpen =>
    simp only [Ingest.place]
    split <;> exact hmissed
  | copyCreate src mode =>
    simp only [Ingest.place]
    split
    · rename_i hok
      exact (putStep_openTruncate rfl (Answer.result_ok hok) _).2
    · exact hmissed
  | copy src dst offset =>
    simp only [Ingest.place]
    split
    · exact putStep_still rfl (fun _ => rfl) (fun h => by cases h) (fun h => by cases h)
    · split_ifs
      · exact putStep_still rfl (fun _ => rfl) (fun _ => rfl) (fun h => by cases h)
      · exact .write rfl rfl rfl
  | discard =>
    simp only [Ingest.place]
    exact putStep_drop rfl (fun _ => rfl) (by decide)
  | reopen =>
    simp only [Ingest.place]
    split
    · exact hmissed
    · exact putStep_ended (by decide)
  | create src =>
    simp only [Ingest.place]
    split
    · rename_i hok
      exact (putStep_openTruncate rfl (Answer.result_ok hok) ⟨[], 0⟩).1
    · exact putStep_ended (by simp [Placing.stage])
  | stream src dst offset =>
    simp only [Ingest.place]
    split
    · exact putStep_ended (by simp [Placing.stage])
    · split_ifs
      · exact putStep_still rfl (fun _ => rfl) (fun _ => rfl) (fun h => by cases h)
      · exact putStep_still rfl (fun _ => rfl) (fun _ => rfl) (fun h => by cases h)
      · exact .write rfl rfl rfl

theorem place_digest {path : Path} {caps : Capabilities} {size : ℕ} {phase : FilePhase}
    (p : Placing) (x : Digest × Stage)
    (hx : x ∈ (Put.file path
      (Ingest.place st privileged ⟨path, fs, caps, phase⟩ d size a p).phase).stage) : x.1 = d := by
  cases p <;> simp only [Ingest.place] at hx <;> (repeat' split at hx) <;> (cases hx; try rfl)

theorem Put.now_file {path : Path} {phase : FilePhase} :
    (Put.file path phase).now = phase.stage := by
  cases phase <;> rfl

/-- A step of an insert that has its object keeps to it. -/
theorem put_step {caps caps' : Capabilities} {p p' : Put} {σ : Stage} (hp : p.stage = some (d, σ))
    (h : Puts.advance b3 st privileged fs caps a p = some (fs', caps', p')) :
    PutStep st a d fs σ fs' p'.now ∧ ∀ x ∈ p'.stage, x.1 = d := by
  cases p with
  | content call =>
    obtain ⟨rfl, rfl⟩ := Prod.mk.injEq .. ▸ Option.some.inj hp
    obtain ⟨⟨fs₁, phase⟩, hadvance, h⟩ := Option.bind_eq_some_iff.1 h
    cases h
    exact ⟨advance_putStep hadvance, fun x hx => by cases hx; rfl⟩
  | file path phase =>
    obtain ⟨s, hmove, h⟩ := Option.bind_eq_some_iff.1 h
    cases h
    rw [Put.now_file]
    cases phase with
    | placing d' size q =>
      obtain ⟨rfl, rfl⟩ := Prod.mk.injEq .. ▸ Option.some.inj hp
      obtain rfl := Option.some.inj hmove
      exact ⟨place_putStep q, place_digest q⟩
    | finish d' size q =>
      obtain ⟨rfl, rfl⟩ := Prod.mk.injEq .. ▸ Option.some.inj hp
      obtain ⟨⟨fs₁, q'⟩, hadvance, hmove⟩ := Option.bind_eq_some_iff.1 hmove
      have hstep := advance_putStep hadvance
      cases q' with
      | done r =>
        cases hmove
        exact ⟨hstep, fun x hx => by cases hx⟩
      | _ =>
        cases hmove
        exact ⟨hstep, fun x hx => by cases hx; rfl⟩
    | _ => cases hp

theorem PutStep.separate {σ σ' : Stage} (h : PutStep st a d fs σ fs' σ')
    (hsep : Separate (Staged st) fs) : Separate (Staged st) fs' := by
  cases h with
  | rest hquiet => exact hsep.of_same hquiet.file hquiet.next.ge
  | miss => exact hsep
  | reopen => exact hsep.setInode _ _
  | create => exact hsep.create _ _
  | write => exact hsep.setInode _ _
  | rename hfile => exact hsep.rename ⟨d, rfl⟩ (objectPath_not_staged d) hfile
  | unlink => exact hsep.unlink _

end PutSteps

namespace Unlocked

section Tracking

variable {fs fs' : Files} {modified modified' : ℕ → ℕ} {clock looked : ℕ} {a : Answer} {d : Digest}
  {σ σ' : Stage}

/-- What stands at the staging path of an insert that has opened it, and what it holds open, was
written to since it looked; and the latter is staged or has become the object. -/
structure Tracks (st : ObjectStore) (fs : Files) (modified : ℕ → ℕ) (clock looked : ℕ) (d : Digest)
    (σ : Stage) : Prop where
  looked_le : σ.pending = true → looked ≤ clock
  staged : σ.staged = true → ∀ i, fs.file (st.stagingPath d) = some i → looked ≤ modified i
  written : ∀ fd, σ.descriptor = some fd → looked ≤ modified fd
  named : ∀ fd, σ.descriptor = some fd → fd < fs.next ∧
    ∀ q, fs.file q = some fd → q = st.stagingPath d ∨ q = st.objectPath d

/-- What the other inserts see of a step. -/
structure Frames (st : ObjectStore) (fs fs' : Files) (modified modified' : ℕ → ℕ) (clock : ℕ) :
    Prop where
  next : fs.next ≤ fs'.next
  modified : ∀ i, modified' i = modified i ∨ modified' i = clock
  staged : ∀ e i, fs'.file (st.stagingPath e) = some i →
    fs.file (st.stagingPath e) = some i ∨ modified' i = clock
  named : ∀ i q, i < fs.next → fs'.file q = some i → fs.file q = some i ∨
    ∃ e, q = st.objectPath e ∧ fs.file (st.stagingPath e) = some i

theorem Tracks.frame (h : Tracks st fs modified clock looked d σ)
    (hf : Frames st fs fs' modified modified' clock) :
    Tracks st fs' modified' clock looked d σ := by
  have hlater : σ.pending = true → ∀ i, looked ≤ modified i → looked ≤ modified' i := by
    intro hσ i hle
    rcases hf.modified i with heq | heq
    · rwa [heq]
    · rw [heq]
      exact h.looked_le hσ
  refine ⟨h.looked_le, fun hσ i hi => ?_, fun fd hfd => ?_, fun fd hfd => ?_⟩
  · have hσ' := Stage.pending_of_staged hσ
    rcases hf.staged d i hi with hold | heq
    · exact hlater hσ' i (h.staged hσ i hold)
    · rw [heq]
      exact h.looked_le hσ'
  · exact hlater (Stage.pending_of_staged (Stage.staged_of_descriptor hfd)) fd (h.written fd hfd)
  · obtain ⟨hlt, hnames⟩ := h.named fd hfd
    refine ⟨Nat.lt_of_lt_of_le hlt hf.next, fun q hq => ?_⟩
    rcases hf.named fd q hlt hq with hq | ⟨e, rfl, he⟩
    · exact hnames q hq
    · rcases hnames _ he with heq | heq
      · rw [stagingPath_inj st heq]
        exact .inr rfl
      · exact absurd heq (st.stagingPath_ne e d)

/-- An insert that rests, or waits with nothing open. -/
theorem Tracks.rest (h : Tracks st fs modified clock looked d σ) (hf : fs'.file = fs.file)
    (hpending : σ'.pending = true → σ.pending = true)
    (hstaged : σ'.staged = true → σ.staged = true) (hfd : σ'.descriptor = none) :
    Tracks st fs' modified clock looked d σ' where
  looked_le hσ' := h.looked_le (hpending hσ')
  staged hσ' i hi := h.staged (hstaged hσ') i (hf ▸ hi)
  written fd h' := by simp [hfd] at h'
  named fd h' := by simp [hfd] at h'

end Tracking

end Unlocked

section Collections

namespace Collection

variable {fs fs' : Files} {modified : ℕ → ℕ} {clock : ℕ} {m : GcMove} {c c' : Collection}

/-- What a collection goes by: it spares what is younger than `age`, and its time has been. -/
def Heeds (age clock : ℕ) : Collection → Prop
  | marking minAge _ => age ≤ minAge
  | sweeping s | listing s _ | removing s _ _ _ => age ≤ s.minAge ∧ s.now ≤ clock
  | done _ => True

theorem Heeds.later {age later : ℕ} (h : c.Heeds age clock) (hle : clock ≤ later) :
    c.Heeds age later := by
  cases c with
  | marking => exact h
  | done => trivial
  | sweeping => exact h.imp_right hle.trans'
  | listing => exact h.imp_right hle.trans'
  | removing => exact h.imp_right hle.trans'

end Collection

end Collections

namespace Unlocked

variable {s : Unlocked} {limit age : ℕ}

section Inserting

variable {fs : Files} {caps : Capabilities} {p : Put} {who : ℕ} {a : Answer} {d : Digest}
  {σ : Stage}

end Inserting

section Collecting

open Collection

variable {fs : Files} {which : ℕ} {m : GcMove} {c c' : Collection}

end Collecting

section Runs

variable {t : Turn} {s' : Unlocked} {who : ℕ} {a : Answer} {fs : Files} {caps : Capabilities}
  {p p' : Put}

end Runs

section Sample

/-- A store that was just opened. -/
def opened : Unlocked := ⟨⟨emptyFiles, .new, fun _ => none⟩, fun _ => 0, 0, [], fun _ => 0, []⟩

/-- The system does what it is asked. -/
def goes (who : ℕ) : Turn := .move who ⟨none, 4096⟩

/-- Two inserts of one byte. The second looks when the first is about to rename its file, and puts
its own in place of that when a collection has just looked at how old it is. -/
def overtaken (minAge : ℕ) (ends : GcMove) : List Turn :=
  [.start 0 (.content (.bytes [120])), .start 1 (.content (.bytes [120]))] ++
    List.replicate 7 (goes 0) ++ [.tick 5, goes 1, goes 0, goes 1, .tick 5, .collect [] minAge,
      .sweep 0 (.openObjects none), .sweep 0 (.fan (some (.ok (.opened sampleBlob.fanout none)))),
      .sweep 0 (.entry (some (.ok ⟨sampleBlob.toHex, true, true, none⟩)))] ++
    List.replicate 6 (goes 1) ++ [.sweep 0 ends]

/-- Twice the time that an insert takes is not enough: a collection that spares what is younger than
that removes an object that was renamed into place a moment ago. -/
theorem twice_not_enough : ∃ s, Runs.exec (turn sampleBlake3 sampleStore false) opened
    (overtaken 10 .unlink) = some s ∧
      Runs.AllSteps (turn sampleBlake3 sampleStore false) (Prompt 5 10) opened
        (overtaken 10 .unlink) ∧
      (sampleBlob, s.clock) ∈ s.placed ∧
      s.puts.fs.file (sampleStore.objectPath sampleBlob) = none := by
  have hrun : (Runs.exec (turn sampleBlake3 sampleStore false) opened
      (overtaken 10 .unlink)).map (fun s => (decide ((sampleBlob, s.clock) ∈ s.placed),
        s.puts.fs.file (sampleStore.objectPath sampleBlob))) = some (true, none) := by
    decide +kernel
  obtain ⟨s, hs, heq⟩ := Option.map_eq_some_iff.1 hrun
  obtain ⟨hplaced, hgone⟩ := Prod.mk.inj heq
  exact ⟨s, hs, by decide +kernel, of_decide_eq_true hplaced, hgone⟩

end Sample

end Unlocked

end Jetrun
