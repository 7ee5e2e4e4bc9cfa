import Jetrun.Shutdown

/-!
# Who takes the control plane down

A listener only goes on after the flag was set or the sender is gone, and the flag is only ever set
to `true` (`Inv`). From there the rest is a matter of counting turns: once the flag is set, neither
listener has more than a few left (`http_turn`, `jrp_turn`), and each of them has one as long as it
is not over (`http_can_move`, `jrp_can_move`).
-/

namespace Jetrun

namespace Shutdown

open Watch Runs

variable {s s' : ControlPlane} {m : Move}

section Steps

/-- All that a move can do, and where it can be made. -/
inductive Step (s : ControlPlane) : Move → ControlPlane → Prop
  | interrupt (ok : Bool) (h : s.sender = .waiting) :
    Step s (.interrupt ok) { s with sender := if ok then .sending else .sent }
  | send (h : s.sender = .sending) :
    Step s .send { s with flag := s.flag.send true, sender := .sent }
  | hangUp (h : s.sender = .sent) : Step s .hangUp { s with flag := s.flag.close, sender := .gone }
  | httpAccept (h : s.http ≠ .draining ∧ s.http ≠ .ended) :
    Step s .httpAccept { s with inFlight := s.inFlight + 1 }
  | httpFinish (h : s.inFlight ≠ 0) : Step s .httpFinish { s with inFlight := s.inFlight - 1 }
  | httpTold {seen : ℕ} (h : s.http = .awaiting seen) (hseen : seen ≠ s.flag.version) :
    Step s .httpChanged { s with http := .looking s.flag.version }
  | httpClosed {seen : ℕ} (h : s.http = .awaiting seen) (hseen : seen = s.flag.version)
      (hclosed : s.flag.isOpen = false) : Step s .httpChanged { s with http := .draining }
  | httpSet {seen : ℕ} (h : s.http = .looking seen) (hset : s.flag.value = true) :
    Step s .httpBorrow { s with http := .draining }
  | httpUnset {seen : ℕ} (h : s.http = .looking seen) (hset : s.flag.value = false) :
    Step s .httpBorrow { s with http := .awaiting seen }
  | httpDrained (h : s.http = .draining) (hidle : s.inFlight = 0) :
    Step s .httpDrained { s with http := .ended }
  | jrpStart {seen : ℕ} (h : s.jrp = .starting seen) :
    Step s (.jrpStart (.ok ())) { s with jrp := .selecting seen }
  | jrpFails {seen : ℕ} (h : s.jrp = .starting seen) (e : Jrp.ErrorKind) :
    Step s (.jrpStart (.error e)) { s with jrp := .ended (.error e) }
  | jrpAccept {seen : ℕ} (h : s.jrp = .selecting seen) (ok : Bool) : Step s (.jrpAccept ok) s
  | jrpTold {seen : ℕ} (h : s.jrp = .selecting seen) (hseen : seen ≠ s.flag.version) :
    Step s .jrpChanged { s with jrp := .looking s.flag.version }
  | jrpClosed {seen : ℕ} (h : s.jrp = .selecting seen) (hseen : seen = s.flag.version)
      (hclosed : s.flag.isOpen = false) : Step s .jrpChanged { s with jrp := .looking seen }
  | jrpSet {seen : ℕ} (h : s.jrp = .looking seen) (hset : s.flag.value = true) :
    Step s .jrpBorrow { s with jrp := .ended (.ok ()) }
  | jrpUnset {seen : ℕ} (h : s.jrp = .looking seen) (hset : s.flag.value = false) :
    Step s .jrpBorrow { s with jrp := .selecting seen }

theorem step_cases (h : step s m = some s') : Step s m s' := by
  cases m with
  | interrupt ok =>
    simp only [step] at h
    split at h <;> cases h
    exact .interrupt ok ‹_›
  | send =>
    simp only [step] at h
    split at h <;> cases h
    exact .send ‹_›
  | hangUp =>
    simp only [step] at h
    split at h <;> cases h
    exact .hangUp ‹_›
  | httpAccept =>
    simp only [step] at h
    split at h <;> cases h
    all_goals exact .httpAccept (by simp [*])
  | httpFinish =>
    simp only [step] at h
    split at h <;> cases h
    exact .httpFinish ‹_›
  | httpChanged =>
    simp only [step] at h
    split at h
    · obtain ⟨r, hr, rfl⟩ := Option.map_eq_some_iff.1 h
      rcases r with ⟨⟩ | v
      · obtain ⟨hseen, hclosed⟩ := Channel.changed_eq_error.1 hr
        exact .httpClosed ‹_› hseen hclosed
      · obtain ⟨hne, rfl⟩ := Channel.changed_eq_ok.1 hr
        exact .httpTold ‹_› hne
    · cases h
  | httpBorrow =>
    simp only [step] at h
    split at h <;> cases h
    cases hset : s.flag.value with
    | true => exact .httpSet ‹_› hset
    | false => exact .httpUnset ‹_› hset
  | httpDrained =>
    simp only [step] at h
    split at h
    · split_ifs at h with hidle
      cases h
      exact .httpDrained ‹_› hidle
    · cases h
  | jrpStart r =>
    simp only [step] at h
    split at h <;> cases h
    rcases r with e | ⟨⟩
    · exact .jrpFails ‹_› e
    · exact .jrpStart ‹_›
  | jrpAccept ok =>
    simp only [step] at h
    split at h <;> cases h
    exact .jrpAccept ‹_› ok
  | jrpChanged =>
    simp only [step] at h
    split at h
    · obtain ⟨r, hr, rfl⟩ := Option.map_eq_some_iff.1 h
      rcases r with ⟨⟩ | v
      · obtain ⟨hseen, hclosed⟩ := Channel.changed_eq_error.1 hr
        exact .jrpClosed ‹_› hseen hclosed
      · obtain ⟨hne, rfl⟩ := Channel.changed_eq_ok.1 hr
        exact .jrpTold ‹_› hne
    · cases h
  | jrpBorrow =>
    simp only [step] at h
    split at h <;> cases h
    cases hset : s.flag.value with
    | true => exact .jrpSet ‹_› hset
    | false => exact .jrpUnset ‹_› hset

end Steps

section Invariant

/-- The flag is set at most once, and then to `true`; a listener that has seen nothing yet has seen
version zero; and one that went on did so for a reason. -/
structure Inv (s : ControlPlane) : Prop where
  version_le : s.flag.version ≤ 1
  value_iff : s.flag.value = true ↔ s.flag.version = 1
  closed_iff : s.flag.isOpen = false ↔ s.sender = .gone
  unsent : s.sender = .waiting ∨ s.sender = .sending → s.flag.version = 0
  http_awaiting : ∀ seen, s.http = .awaiting seen → seen = 0
  http_looking : ∀ seen, s.http = .looking seen → s.flag.value = true
  http_down : s.http = .draining ∨ s.http = .ended → s.flag.value = true ∨ s.flag.isOpen = false
  jrp_waiting : ∀ seen, s.jrp = .starting seen ∨ s.jrp = .selecting seen → seen = 0
  jrp_looking : ∀ seen, s.jrp = .looking seen →
    s.flag.value = true ∨ seen = 0 ∧ s.flag.isOpen = false
  jrp_ended : s.jrp = .ended (.ok ()) → s.flag.value = true

theorem start_inv : Inv start := by
  constructor <;> simp [start, Channel.new]

theorem step_inv (hI : Inv s) (h : step s m = some s') : Inv s' := by
  obtain ⟨h1, h2, h3, h4, h5, h6, h7, h8, h9, h10⟩ := hI
  cases step_cases h with
  | send hs => constructor <;> grind [Channel.send]
  | hangUp hs => constructor <;> grind [Channel.close]
  | _ => constructor <;> grind

theorem Reachable.inv (h : Reachable s) : Inv s := by
  obtain ⟨moves, hmoves⟩ := h
  exact exec_invariant (fun _ _ _ hI hs => step_inv hI hs) start_inv hmoves

end Invariant

section Turns

/-- How many turns the HTTP listener has left, once it has a reason to end. -/
def Http.left : Http → ℕ
  | .awaiting _ => 3
  | .looking _ => 2
  | .draining => 1
  | .ended => 0

/-- How many turns the JRP listener has left, once it is told. -/
def JrpTask.left : JrpTask → ℕ
  | .starting _ => 3
  | .selecting _ => 2
  | .looking _ => 1
  | .ended _ => 0

theorem http_turn (hI : Inv s ∧ s.Ending) (h : step s m = some s') :
    (Inv s' ∧ s'.Ending) ∧
      s'.http.left + (if m.ofHttp then 1 else 0) ≤ s.http.left := by
  refine ⟨⟨step_inv hI.1 h, ?_⟩, ?_⟩
  · cases step_cases h with
    | send => exact .inl rfl
    | hangUp => exact .inr rfl
    | _ => exact hI.2
  · have hlooking := hI.1.http_looking
    cases step_cases h with
    | httpTold hat => simp [hat, Http.left, Move.ofHttp]
    | httpClosed hat => simp [hat, Http.left, Move.ofHttp]
    | httpSet hat => simp [hat, Http.left, Move.ofHttp]
    | httpUnset hat hset => simp [hlooking _ hat] at hset
    | httpDrained hat => simp [hat, Http.left, Move.ofHttp]
    | _ => simp [Move.ofHttp]

theorem jrp_turn (hI : Inv s ∧ s.Told) (h : step s m = some s') :
    (Inv s' ∧ s'.Told) ∧ s'.jrp.left + (if m.ofJrp then 1 else 0) ≤ s.jrp.left := by
  refine ⟨⟨step_inv hI.1 h, ?_⟩, ?_⟩
  · cases step_cases h with
    | send => rfl
    | _ => exact hI.2
  · have htold : s.flag.value = true := hI.2
    cases step_cases h with
    | jrpStart hat => simp [hat, JrpTask.left, Move.ofJrp]
    | jrpFails hat => simp [hat, JrpTask.left, Move.ofJrp]
    | jrpTold hat => simp [hat, JrpTask.left, Move.ofJrp]
    | jrpClosed hat => simp [hat, JrpTask.left, Move.ofJrp]
    | jrpSet hat => simp [hat, JrpTask.left, Move.ofJrp]
    | jrpUnset hat hset => simp [htold] at hset
    | _ => simp [Move.ofJrp]

theorem finish_turn (h : step s m = some s') :
    s'.inFlight + (if m.finishes then 1 else 0) ≤ s.inFlight + if m.accepts then 1 else 0 := by
  cases step_cases h with
  | httpFinish hbusy =>
    simp only [Move.finishes, Move.accepts, if_true]
    omega
  | _ => simp [Move.finishes, Move.accepts]

/-- The HTTP listener has a turn, or a request that can finish, as long as it is not over. -/
theorem http_can_move (hI : Inv s) (hend : s.Ending)
    (hnot : s.http ≠ .ended) :
    ∃ m, (m.ofHttp ∨ m.finishes) ∧ (step s m).isSome := by
  cases hhttp : s.http with
  | awaiting seen =>
    refine ⟨.httpChanged, .inl rfl, ?_⟩
    have hseen := hI.http_awaiting seen hhttp
    simp only [step, hhttp, Option.isSome_map]
    rw [Option.isSome_iff_ne_none, Ne, Channel.changed_eq_none]
    rintro ⟨hversion, hopen⟩
    rcases hend with htold | hclosed
    · have hone := hI.value_iff.1 htold
      omega
    · simp [hclosed] at hopen
  | looking seen => exact ⟨.httpBorrow, .inl rfl, by simp [step, hhttp]⟩
  | draining =>
    by_cases hidle : s.inFlight = 0
    · exact ⟨.httpDrained, .inl rfl, by simp [step, hhttp, hidle]⟩
    · exact ⟨.httpFinish, .inr rfl, by simp [step, hidle]⟩
  | ended => exact absurd hhttp hnot

/-- The JRP listener has a turn as long as it is not over. -/
theorem jrp_can_move (hI : Inv s) (hend : s.Ending)
    (hnot : ∀ r, s.jrp ≠ .ended r) : ∃ m, m.ofJrp ∧ (step s m).isSome := by
  cases hjrp : s.jrp with
  | starting seen => exact ⟨.jrpStart (.ok ()), rfl, by simp [step, hjrp]⟩
  | selecting seen =>
    refine ⟨.jrpChanged, rfl, ?_⟩
    have hseen := hI.jrp_waiting seen (.inr hjrp)
    simp only [step, hjrp, Option.isSome_map]
    rw [Option.isSome_iff_ne_none, Ne, Channel.changed_eq_none]
    rintro ⟨hversion, hopen⟩
    rcases hend with htold | hclosed
    · have hone := hI.value_iff.1 htold
      omega
    · simp [hclosed] at hopen
  | looking seen => exact ⟨.jrpBorrow, rfl, by simp [step, hjrp]⟩
  | ended r => exact absurd hjrp (hnot r)

end Turns

section Runs

variable {moves : List Move}

theorem result_eq_some {r : Except Jrp.ErrorKind Unit} (h : s.result = some r) :
    s.http = .ended ∧ s.jrp = .ended r := by
  unfold ControlPlane.result at h
  split at h
  · rename_i hhttp hjrp
    exact ⟨hhttp, hjrp.trans (congrArg _ (Option.some.inj h))⟩
  · cases h

theorem result_eq_none (h : s.result = none) : s.http ≠ .ended ∨ ∀ r, s.jrp ≠ .ended r := by
  by_contra hnot
  push Not at hnot
  obtain ⟨hhttp, r, hjrp⟩ := hnot
  simp [ControlPlane.result, hhttp, hjrp] at h

/-- Every run from a state in which HTTP has a reason to end gives it three turns at most. -/
theorem http_turns (hI : Inv s) (hend : s.Ending)
    (hrun : exec step s moves = some s') :
    (Inv s' ∧ s'.Ending) ∧ moves.countP Move.ofHttp ≤ 3 := by
  have hkeep := exec_invariant (I := fun s => Inv s ∧ s.Ending)
    (fun _ _ _ hI hs => (http_turn hI hs).1) ⟨hI, hend⟩ hrun
  refine ⟨hkeep, ?_⟩
  have hrank := exec_rank (fun s => s.http.left) Move.ofHttp (fun _ => false)
    (I := fun s => Inv s ∧ s.Ending) (fun _ _ _ hI hs => by simpa using http_turn hI hs)
    ⟨hI, hend⟩ hrun
  have hthree : s.http.left ≤ 3 := by cases s.http <;> simp [Http.left]
  rw [List.countP_eq_zero.2 (by simp : ∀ m ∈ moves, ¬false = true)] at hrank
  omega

theorem jrp_turns (hI : Inv s) (htold : s.Told) (hrun : exec step s moves = some s') :
    s'.Told ∧ moves.countP Move.ofJrp ≤ 3 := by
  have hkeep := exec_invariant (I := fun s => Inv s ∧ s.Told)
    (fun _ _ _ hI hs => (jrp_turn hI hs).1) ⟨hI, htold⟩ hrun
  refine ⟨hkeep.2, ?_⟩
  have hrank := exec_rank (fun s => s.jrp.left) Move.ofJrp (fun _ => false)
    (I := fun s => Inv s ∧ s.Told) (fun _ _ _ hI hs => by simpa using jrp_turn hI hs)
    ⟨hI, htold⟩ hrun
  have hthree : s.jrp.left ≤ 3 := by cases s.jrp <;> simp [JrpTask.left]
  rw [List.countP_eq_zero.2 (by simp : ∀ m ∈ moves, ¬false = true)] at hrank
  omega

/-- Without the flag, the JRP listener stays in its loop. -/
theorem untold_step (hI : s.Untold ∧ Inv s) (h : step s m = some s') :
    (s'.Untold ∧ Inv s') ∧ (s.Serves → s'.Serves) := by
  have hclosed : s.flag.isOpen = false := hI.1.1
  have hunset : s.flag.value = false := hI.1.2
  have hgone := hI.2.closed_iff.1 hclosed
  refine ⟨⟨?_, step_inv hI.2 h⟩, ?_⟩
  · cases step_cases h with
    | send hat => simp [hgone] at hat
    | hangUp hat => simp [hgone] at hat
    | _ => exact hI.1
  · cases step_cases h with
    | jrpStart hat => simp [ControlPlane.Serves, hat]
    | jrpFails hat => simp [ControlPlane.Serves, hat]
    | jrpTold hat => simp [ControlPlane.Serves]
    | jrpClosed hat => simp [ControlPlane.Serves]
    | jrpSet hat hset => simp [hunset] at hset
    | jrpUnset hat => simp [ControlPlane.Serves]
    | _ => exact id

end Runs

section Results

variable {moves : List Move}

/-- A request is under way when Ctrl-C is pressed. -/
def samplePressed : List Move :=
  [.jrpStart (.ok ()), .httpAccept, .interrupt true, .send]

def sampleTold : ControlPlane := ⟨⟨true, 1, true⟩, .sent, .awaiting 0, 1, .selecting 0⟩

def sampleWindDown : List Move :=
  [.httpChanged, .jrpChanged, .httpBorrow, .jrpBorrow, .httpFinish, .httpDrained]

def sampleDown : ControlPlane := ⟨⟨true, 1, true⟩, .sent, .ended, 0, .ended (.ok ())⟩

/-- Once Ctrl-C was pressed, whatever the schedule, each listener has three turns left at most, and
requests finish as often as they were accepted; and until `serve` returns, one of these is there to
be made. -/
theorem told_stops (h : Reachable s) (htold : s.Told) (hrun : exec step s moves = some s') :
    moves.countP Move.ofHttp ≤ 3 ∧ moves.countP Move.ofJrp ≤ 3 ∧
      moves.countP Move.finishes ≤ s.inFlight + moves.countP Move.accepts ∧
      (s'.result = none → ∃ m, (m.ofHttp ∨ m.finishes ∨ m.ofJrp) ∧ (step s' m).isSome) := by
  obtain ⟨⟨hI', hend'⟩, hhttp⟩ := http_turns h.inv (.inl htold) hrun
  refine ⟨hhttp, (jrp_turns h.inv htold hrun).2, ?_, fun hnone => ?_⟩
  · have hrank := exec_rank ControlPlane.inFlight Move.finishes Move.accepts
      (I := fun _ => True) (fun _ _ _ _ hs => ⟨trivial, finish_turn hs⟩) trivial hrun
    omega
  · rcases result_eq_none hnone with hnot | hnot
    · obtain ⟨m, hm, hstep⟩ := http_can_move hI' hend' hnot
      exact ⟨m, hm.imp_right .inl, hstep⟩
    · obtain ⟨m, hm, hstep⟩ := jrp_can_move hI' hend' hnot
      exact ⟨m, .inr (.inr hm), hstep⟩

theorem sample_stops :
    exec step sampleTold sampleWindDown = some sampleDown ∧
      sampleWindDown.countP Move.ofHttp ≤ 3 ∧ sampleWindDown.countP Move.ofJrp ≤ 3 ∧
      sampleWindDown.countP Move.finishes ≤ 1 + sampleWindDown.countP Move.accepts := by
  have hrun : exec step sampleTold sampleWindDown = some sampleDown := by decide
  obtain ⟨hhttp, hjrp, hfinish, -⟩ :=
    told_stops (s := sampleTold) ⟨samplePressed, by decide⟩ rfl hrun
  exact ⟨hrun, hhttp, hjrp, hfinish⟩

/-- If the process cannot wait for Ctrl-C, the sender goes away without a word. The HTTP listener
takes that for the end, and has three turns left at most; the JRP listener goes on for good, always
with a turn to make, and `serve` does not return. -/
theorem untold_hangs (h : Reachable s) (huntold : s.Untold) (hrun : exec step s moves = some s') :
    moves.countP Move.ofHttp ≤ 3 ∧
      (s'.http ≠ .ended → ∃ m, (m.ofHttp ∨ m.finishes) ∧ (step s' m).isSome) ∧
      s'.result ≠ some (.ok ()) ∧
      (s.Serves → s'.result = none ∧ ∃ m, m.ofJrp ∧ (step s' m).isSome) := by
  obtain ⟨⟨hI', hend'⟩, hhttp⟩ := http_turns h.inv (.inr huntold.1) hrun
  have huntold' : s'.Untold :=
    (exec_invariant (fun _ _ _ hI hs => (untold_step hI hs).1) ⟨huntold, h.inv⟩ hrun).1
  refine ⟨hhttp, http_can_move hI' hend', fun hok => ?_, fun hserves => ?_⟩
  · have htold := hI'.jrp_ended (result_eq_some hok).2
    simp [huntold'.2] at htold
  · have hserves' := (exec_invariant (I := fun s => (s.Untold ∧ Inv s) ∧ s.Serves)
      (fun _ _ _ hI hs => ⟨(untold_step hI.1 hs).1, (untold_step hI.1 hs).2 hI.2⟩)
      ⟨⟨huntold, h.inv⟩, hserves⟩ hrun).2
    have hnot : ∀ r, s'.jrp ≠ .ended r := by
      obtain ⟨seen, hat | hat⟩ := hserves' <;> simp [hat]
    refine ⟨?_, jrp_can_move hI' hend' hnot⟩
    cases hresult : s'.result with
    | none => rfl
    | some r => exact absurd (result_eq_some hresult).2 (hnot r)

/-- `ctrl_c` fails, HTTP goes down, and the JRP listener takes one turn after another. -/
def sampleUntold : ControlPlane := ⟨⟨false, 0, false⟩, .gone, .awaiting 0, 0, .selecting 0⟩

def sampleHalf : ControlPlane := ⟨⟨false, 0, false⟩, .gone, .ended, 0, .selecting 0⟩

theorem sample_hangs : exec step sampleUntold
      [.httpChanged, .httpDrained, .jrpChanged, .jrpBorrow, .jrpChanged, .jrpBorrow]
        = some sampleHalf ∧
      sampleHalf.result = none ∧ ∃ m, m.ofJrp ∧ (step sampleHalf m).isSome := by
  have hrun : exec step sampleUntold
      [.httpChanged, .httpDrained, .jrpChanged, .jrpBorrow, .jrpChanged, .jrpBorrow]
        = some sampleHalf := by decide
  obtain ⟨-, -, -, hserves⟩ := untold_hangs
    ⟨[.jrpStart (.ok ()), .interrupt false, .hangUp], by decide⟩ ⟨rfl, rfl⟩ hrun
  obtain ⟨hnone, hturn⟩ := hserves ⟨0, .inl rfl⟩
  exact ⟨hrun, hnone, hturn⟩

end Results

end Shutdown

end Jetrun
