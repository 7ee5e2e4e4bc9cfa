import Jetrun.Lib.Purge
import Mathlib.Data.List.Nodup
import Mathlib.Order.Nat

/-!
# Handlers that take a lock once

Requests are handled side by side over one shared state, which a lock guards. A handler answers at
once, or reads the clock, waits for the lock, reads and changes the shared state while it holds it,
and works out its answer after. Between any two of its steps the other handlers may take theirs, so
handlers may come to the lock in another order than they read the clock in.

Each request takes effect in one step, when it is answered at once or when its handler holds the
lock. Handled one after the other in that order, and each with the clock it read, the requests get
the same answers and leave the same state (`Explained.replay`).
-/

namespace Locking

/-- What a handler does before it takes the lock, while it holds it, and after. -/
structure Handler (ι σ α β ρ : Type*) where
  before : ι → ρ ⊕ α
  locked : α → ℕ → σ → β × σ
  after : α → β → ρ

inductive Stage (α β ρ : Type*)
  | arrived
  | waiting (a : α) (now : ℕ)
  | released (a : α) (b : β)
  | done (r : ρ)

/-- A request takes effect: the clock its handler read, and the time it is by then. -/
structure Effect (ι ρ : Type*) where
  handler : ℕ
  request : ι
  reading : ℕ
  time : ℕ
  answer : ρ

/-- The handlers, in the order the requests arrived in. `effects` is for the record only. -/
structure Server (ι σ α β ρ : Type*) where
  clock : ℕ
  shared : σ
  handlers : List (ι × Stage α β ρ)
  effects : List (Effect ι ρ)

/-- Time passes, a request arrives, or a handler goes on. -/
inductive Move (ι : Type*)
  | tick (elapsed : ℕ)
  | arrive (i : ι)
  | start (k : ℕ)
  | lock (k : ℕ)
  | finish (k : ℕ)

variable {ι σ α β ρ : Type*}

/-- A request that is handled alone. -/
def Handler.alone (h : Handler ι σ α β ρ) (s : σ) (r : ι × ℕ) : ρ × σ :=
  match h.before r.1 with
  | .inl answer => (answer, s)
  | .inr a => (h.after a (h.locked a r.2 s).1, (h.locked a r.2 s).2)

namespace Server

def new (s : σ) : Server ι σ α β ρ := ⟨0, s, [], []⟩

variable (s : Server ι σ α β ρ)

def goTo (k : ℕ) (i : ι) (stage : Stage α β ρ) : Server ι σ α β ρ :=
  { s with handlers := s.handlers.set k (i, stage) }

def record (e : Effect ι ρ) : Server ι σ α β ρ := { s with effects := s.effects ++ [e] }

def move (h : Handler ι σ α β ρ) (s : Server ι σ α β ρ) : Move ι → Option (Server ι σ α β ρ)
  | .tick elapsed => some { s with clock := s.clock + elapsed }
  | .arrive i => some { s with handlers := s.handlers ++ [(i, .arrived)] }
  | .start k =>
    match s.handlers[k]? with
    | some (i, .arrived) =>
      match h.before i with
      | .inl answer => some ((s.goTo k i (.done answer)).record ⟨k, i, s.clock, s.clock, answer⟩)
      | .inr a => some (s.goTo k i (.waiting a s.clock))
    | _ => none
  | .lock k =>
    match s.handlers[k]? with
    | some (i, .waiting a now) =>
      let (b, shared) := h.locked a now s.shared
      some ({ s with shared }.goTo k i (.released a b) |>.record
        ⟨k, i, now, s.clock, h.after a b⟩)
    | _ => none
  | .finish k =>
    match s.handlers[k]? with
    | some (i, .released a b) => some (s.goTo k i (.done (h.after a b)))
    | _ => none

/-- The handler has answered. -/
def Done (k : ℕ) (i : ι) (answer : ρ) : Prop := s.handlers[k]? = some (i, .done answer)

/-- What took effect, as requests to handle one after the other. -/
def inOrder : List (ι × ℕ) := s.effects.map fun e => (e.request, e.reading)

end Server

section Moves

variable {h : Handler ι σ α β ρ} {s s' : Server ι σ α β ρ}

/-- All that one move can do. -/
inductive Moved (h : Handler ι σ α β ρ) (s : Server ι σ α β ρ) : Server ι σ α β ρ → Prop
  | tick (elapsed : ℕ) : Moved h s { s with clock := s.clock + elapsed }
  | arrive (i : ι) : Moved h s { s with handlers := s.handlers ++ [(i, .arrived)] }
  | answer {k i answer} (hat : s.handlers[k]? = some (i, .arrived))
    (hb : h.before i = .inl answer) :
    Moved h s ((s.goTo k i (.done answer)).record ⟨k, i, s.clock, s.clock, answer⟩)
  | wait {k i a} (hat : s.handlers[k]? = some (i, .arrived)) (hb : h.before i = .inr a) :
    Moved h s (s.goTo k i (.waiting a s.clock))
  | lock {k i a now b shared} (hat : s.handlers[k]? = some (i, .waiting a now))
    (hl : h.locked a now s.shared = (b, shared)) :
    Moved h s ({ s with shared }.goTo k i (.released a b) |>.record
      ⟨k, i, now, s.clock, h.after a b⟩)
  | finish {k i a b} (hat : s.handlers[k]? = some (i, .released a b)) :
    Moved h s (s.goTo k i (.done (h.after a b)))

theorem moved_of_move {m : Move ι} (hm : s.move h m = some s') : Moved h s s' := by
  unfold Server.move at hm
  split at hm
  · exact Option.some.inj hm ▸ .tick _
  · exact Option.some.inj hm ▸ .arrive _
  · split at hm
    · rename_i hat
      split at hm
      · rename_i hb
        exact Option.some.inj hm ▸ .answer hat hb
      · rename_i hb
        exact Option.some.inj hm ▸ .wait hat hb
    · cases hm
  · split at hm
    · rename_i hat
      exact Option.some.inj hm ▸ .lock hat rfl
    · cases hm
  · split at hm
    · rename_i hat
      exact Option.some.inj hm ▸ .finish hat
    · cases hm

end Moves

section Explained

variable {h : Handler ι σ α β ρ} {s₀ : σ} {s s' : Server ι σ α β ρ}

/-- What took effect for a handler, by the stage it is at. -/
def Accounted (h : Handler ι σ α β ρ) (effects : List (Effect ι ρ)) (clock k : ℕ) (i : ι) :
    Stage α β ρ → Prop
  | .arrived => ∀ e ∈ effects, e.handler ≠ k
  | .waiting a now => h.before i = .inr a ∧ now ≤ clock ∧ ∀ e ∈ effects, e.handler ≠ k
  | .released a b => ∃ e ∈ effects, e.handler = k ∧ e.answer = h.after a b
  | .done answer => ∃ e ∈ effects, e.handler = k ∧ e.answer = answer

/-- What took effect explains what the server holds and what its handlers answer. -/
structure Explained (h : Handler ι σ α β ρ) (s₀ : σ) (s : Server ι σ α β ρ) : Prop where
  replay : Purge.run h.alone s₀ s.inOrder =
    (s.effects.map fun e => ((e.request, e.reading), e.answer), s.shared)
  accounted : ∀ k i stage, s.handlers[k]? = some (i, stage) →
    Accounted h s.effects s.clock k i stage
  owner : ∀ e ∈ s.effects, ∃ stage, s.handlers[e.handler]? = some (e.request, stage)
  once : (s.effects.map (·.handler)).Nodup
  timely : ∀ e ∈ s.effects, e.reading ≤ e.time ∧ e.time ≤ s.clock
  order : s.effects.Pairwise fun e f => e.time ≤ f.time

theorem explained_new (h : Handler ι σ α β ρ) (s₀ : σ) : Explained h s₀ (.new s₀) where
  replay := rfl
  accounted k i stage hk := by simp [Server.new] at hk
  owner := by simp [Server.new]
  once := by simp [Server.new]
  timely := by simp [Server.new]
  order := by simp [Server.new]

theorem Accounted.tick {effects : List (Effect ι ρ)} {clock k : ℕ} {i : ι} {stage : Stage α β ρ}
    (hs : Accounted h effects clock k i stage) (elapsed : ℕ) :
    Accounted h effects (clock + elapsed) k i stage := by
  cases stage with
  | waiting a now => exact ⟨hs.1, hs.2.1.trans (Nat.le_add_right _ _), hs.2.2⟩
  | arrived => exact hs
  | released a b => exact hs
  | done answer => exact hs

/-- Another handler's effect changes nothing for this one. -/
theorem Accounted.append {effects : List (Effect ι ρ)} {clock k : ℕ} {i : ι} {stage : Stage α β ρ}
    (hs : Accounted h effects clock k i stage) {e : Effect ι ρ} (he : e.handler ≠ k) :
    Accounted h (effects ++ [e]) clock k i stage := by
  have hnone (hold : ∀ f ∈ effects, f.handler ≠ k) : ∀ f ∈ effects ++ [e], f.handler ≠ k := by
    intro f hf
    rcases List.mem_append.1 hf with hf | hf
    · exact hold f hf
    · exact List.mem_singleton.1 hf ▸ he
  cases stage with
  | arrived => exact hnone hs
  | waiting a now => exact ⟨hs.1, hs.2.1, hnone hs.2.2⟩
  | released a b =>
    obtain ⟨f, hf, hk⟩ := hs
    exact ⟨f, List.mem_append_left _ hf, hk⟩
  | done answer =>
    obtain ⟨f, hf, hk⟩ := hs
    exact ⟨f, List.mem_append_left _ hf, hk⟩

theorem handlers_goTo {k k' : ℕ} {i i' : ι} {old stage stage' : Stage α β ρ}
    (hat : s.handlers[k]? = some (i, old))
    (hk : (s.goTo k i stage).handlers[k']? = some (i', stage')) :
    (k' = k ∧ i' = i ∧ stage' = stage) ∨ k' ≠ k ∧ s.handlers[k']? = some (i', stage') := by
  have hlt : k < s.handlers.length := (List.getElem?_eq_some_iff.1 hat).1
  by_cases hkk : k' = k
  · subst hkk
    simp only [Server.goTo, List.getElem?_set_self hlt, Option.some.injEq, Prod.mk.injEq] at hk
    exact .inl ⟨rfl, hk.1.symm, hk.2.symm⟩
  · simp only [Server.goTo, List.getElem?_set_ne (Ne.symm hkk)] at hk
    exact .inr ⟨hkk, hk⟩

/-- A handler goes on, but keeps its request. -/
theorem owner_goTo {k : ℕ} {i : ι} {old stage : Stage α β ρ}
    (hat : s.handlers[k]? = some (i, old)) {k' : ℕ} {i' : ι}
    (hown : ∃ st, s.handlers[k']? = some (i', st)) :
    ∃ st, (s.goTo k i stage).handlers[k']? = some (i', st) := by
  obtain ⟨st, hst⟩ := hown
  have hlt : k < s.handlers.length := (List.getElem?_eq_some_iff.1 hat).1
  by_cases hkk : k' = k
  · subst hkk
    obtain ⟨rfl, -⟩ : i = i' ∧ old = st := by simpa [hat] using hst
    exact ⟨stage, by simp [Server.goTo, List.getElem?_set_self hlt]⟩
  · exact ⟨st, by simpa [Server.goTo, List.getElem?_set_ne (Ne.symm hkk)] using hst⟩

theorem Explained.goTo (hx : Explained h s₀ s) {k : ℕ} {i : ι} {old stage : Stage α β ρ}
    (hat : s.handlers[k]? = some (i, old)) (hnew : Accounted h s.effects s.clock k i stage) :
    Explained h s₀ (s.goTo k i stage) where
  replay := hx.replay
  accounted k' i' stage' hk := by
    rcases handlers_goTo hat hk with ⟨rfl, rfl, rfl⟩ | ⟨-, hk⟩
    · exact hnew
    · exact hx.accounted k' i' stage' hk
  owner e he := owner_goTo hat (hx.owner e he)
  once := hx.once
  timely := hx.timely
  order := hx.order

/-- A handler that is the next to take effect. -/
theorem Explained.effect (hx : Explained h s₀ s) {k now : ℕ} {i : ι} {old stage : Stage α β ρ}
    {answer : ρ} {shared : σ} (hat : s.handlers[k]? = some (i, old))
    (hfirst : ∀ e ∈ s.effects, e.handler ≠ k) (hnow : now ≤ s.clock)
    (halone : h.alone s.shared (i, now) = (answer, shared))
    (hnew : Accounted h (s.effects ++ [⟨k, i, now, s.clock, answer⟩]) s.clock k i stage) :
    Explained h s₀
      (({ s with shared }.goTo k i stage).record ⟨k, i, now, s.clock, answer⟩) where
  replay := by
    have hrun := hx.replay
    simp only [Server.inOrder, Server.record, Server.goTo, List.map_append, List.map_cons,
      List.map_nil] at hrun ⊢
    rw [Purge.run_append, hrun]
    simp [Purge.run, halone]
  accounted k' i' stage' hk := by
    rcases handlers_goTo (s := { s with shared }) hat hk with ⟨rfl, rfl, rfl⟩ | ⟨hne, hk⟩
    · exact hnew
    · exact (hx.accounted k' i' stage' hk).append (Ne.symm hne)
  owner e he := by
    refine owner_goTo (s := { s with shared }) hat ?_
    rcases List.mem_append.1 he with he | he
    · exact hx.owner e he
    · obtain rfl := List.mem_singleton.1 he
      exact ⟨old, hat⟩
  once := by
    simp only [Server.record, Server.goTo, List.map_append, List.map_cons, List.map_nil]
    refine List.nodup_append.2 ⟨hx.once, by simp, ?_⟩
    rintro _ hmem _ hk rfl
    obtain ⟨e, he, rfl⟩ := List.mem_map.1 hmem
    exact hfirst e he (List.mem_singleton.1 hk)
  timely e he := by
    rcases List.mem_append.1 he with he | he
    · exact hx.timely e he
    · obtain rfl := List.mem_singleton.1 he
      exact ⟨hnow, le_rfl⟩
  order := by
    refine List.pairwise_append.2 ⟨hx.order, by simp, fun e he f hf => ?_⟩
    obtain rfl := List.mem_singleton.1 hf
    exact (hx.timely e he).2

theorem Explained.moved (hx : Explained h s₀ s) (hm : Moved h s s') : Explained h s₀ s' := by
  cases hm with
  | tick elapsed =>
    exact ⟨hx.replay, fun k i stage hk => (hx.accounted k i stage hk).tick elapsed, hx.owner,
      hx.once, fun e he => ⟨(hx.timely e he).1, (hx.timely e he).2.trans (Nat.le_add_right _ _)⟩,
      hx.order⟩
  | arrive i =>
    have hlt (e : Effect ι ρ) (he : e ∈ s.effects) : e.handler < s.handlers.length := by
      obtain ⟨stage, hstage⟩ := hx.owner e he
      exact (List.getElem?_eq_some_iff.1 hstage).1
    refine ⟨hx.replay, fun k i' stage hk => ?_, fun e he => ?_, hx.once, hx.timely, hx.order⟩
    · rcases lt_or_ge k s.handlers.length with hold | hold
      · rw [List.getElem?_append_left hold] at hk
        exact hx.accounted k i' stage hk
      · rw [List.getElem?_append_right hold] at hk
        cases List.mem_singleton.1 (List.mem_of_getElem? hk)
        intro e he hek
        have := hlt e he
        omega
    · obtain ⟨stage, hstage⟩ := hx.owner e he
      exact ⟨stage, by rw [List.getElem?_append_left (hlt e he)]; exact hstage⟩
  | answer hat hb =>
    exact hx.effect hat (hx.accounted _ _ _ hat) le_rfl (by simp [Handler.alone, hb])
      ⟨_, List.mem_append_right _ List.mem_cons_self, rfl, rfl⟩
  | wait hat hb => exact hx.goTo hat ⟨hb, le_rfl, hx.accounted _ _ _ hat⟩
  | lock hat hl =>
    obtain ⟨hb, hnow, hfirst⟩ := hx.accounted _ _ _ hat
    exact hx.effect hat hfirst hnow (by simp [Handler.alone, hb, hl])
      ⟨_, List.mem_append_right _ List.mem_cons_self, rfl, rfl⟩
  | finish hat => exact hx.goTo hat (hx.accounted _ _ _ hat :)

/-- However its handlers are interleaved, what took effect explains what a server holds. -/
theorem explained {moves : List (Move ι)}
    (hrun : Runs.exec (Server.move h) (.new s₀) moves = some s) : Explained h s₀ s :=
  Runs.exec_invariant (fun _ _ _ hx hm => hx.moved (moved_of_move hm)) (explained_new h s₀) hrun

end Explained

section RealTime

variable {h : Handler ι σ α β ρ} {s s' : Server ι σ α β ρ}

/-- What took effect stays so. -/
theorem Moved.effects (hm : Moved h s s') : ∃ new, s'.effects = s.effects ++ new := by
  cases hm with
  | tick => exact ⟨[], (List.append_nil _).symm⟩
  | arrive => exact ⟨[], (List.append_nil _).symm⟩
  | answer => exact ⟨_, rfl⟩
  | wait => exact ⟨[], (List.append_nil _).symm⟩
  | lock => exact ⟨_, rfl⟩
  | finish => exact ⟨[], (List.append_nil _).symm⟩

theorem effects_grow : ∀ {moves : List (Move ι)} {s s' : Server ι σ α β ρ},
    Runs.exec (Server.move h) s moves = some s' → ∃ new, s'.effects = s.effects ++ new
  | [], _, _, hrun => ⟨[], by simp [Option.some.inj hrun]⟩
  | _ :: _, _, _, hrun => by
    obtain ⟨s₁, hm, hrest⟩ := Option.bind_eq_some_iff.1 hrun
    obtain ⟨first, hfirst⟩ := (moved_of_move hm).effects
    obtain ⟨new, hnew⟩ := effects_grow hrest
    exact ⟨first ++ new, by rw [hnew, hfirst, List.append_assoc]⟩

/-- A request that arrives when another is answered takes effect after it. -/
theorem answered_first {s₀ : σ} {before after : List (Move ι)} {mid : Server ι σ α β ρ}
    (hmid : Runs.exec (Server.move h) (.new s₀) before = some mid)
    (hrun : Runs.exec (Server.move h) (.new s₀) (before ++ after) = some s) {e f : Effect ι ρ}
    (he : e ∈ s.effects) (hdone : ∃ i answer, mid.Done e.handler i answer)
    (hlate : mid.handlers.length ≤ f.handler) {l₁ l₂ : List (Effect ι ρ)}
    (hf : s.effects = l₁ ++ f :: l₂) : e ∈ l₁ := by
  have hx := explained hrun
  have hxmid := explained hmid
  rw [Runs.exec_append, hmid] at hrun
  obtain ⟨new, hnew⟩ := effects_grow hrun
  have hmem : e ∈ mid.effects := by
    obtain ⟨i, answer, hat⟩ := hdone
    obtain ⟨d, hd, hdk, -⟩ := hxmid.accounted _ _ _ hat
    rw [hnew] at he
    obtain rfl : d = e := List.inj_on_of_nodup_map hx.once (by simp [hnew, hd]) (by rwa [hnew]) hdk
    exact hd
  have hnot : f ∉ mid.effects := by
    intro hfmid
    obtain ⟨stage, hstage⟩ := hxmid.owner f hfmid
    exact absurd (List.getElem?_eq_some_iff.1 hstage).1 (by omega)
  -- `f` stands behind all that had taken effect by then
  rw [hf] at hnew
  rcases List.append_eq_append_iff.1 hnew with ⟨rest, hold, hnext⟩ | ⟨rest, rfl, -⟩
  · rcases rest with _ | ⟨d, rest⟩
    · simpa [hold] using hmem
    · rw [List.cons_append, List.cons.injEq] at hnext
      exact absurd (by simp [hold, hnext.1]) hnot
  · exact List.mem_append_left _ hmem

end RealTime

end Locking
