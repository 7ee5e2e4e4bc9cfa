import Jetrun.Revocation
import Jetrun.Proofs.Authz

/-!
# Revocation is immediate

Every entry of the cache and every answer was read from some version of the database. The invariant
ties it to a number of increments: what a lookup that loaded the generation after `n` increments
finds is no older than the commits of those `n`. The counter says how many there were as long as it
has not wrapped around.
-/

namespace Jetrun

section Presented

theorem Scope.eq_of_presented {home : PipelineId → ProjectId} {p q : Principal} {s s' : Scope}
    (hs : Presented home p s) (hs' : Presented home q s') (horg : p.org = q.org)
    (hkind : s.kind = s'.kind) (hown : s.ownId = s'.ownId) : s = s' := by
  obtain ⟨ho, hp⟩ := hs
  obtain ⟨ho', hp'⟩ := hs'
  rw [horg, ← ho'] at ho
  cases s with
  | org o =>
    cases s' with
    | org o' => exact congrArg Scope.org ho
    | project _ _ => cases hkind
    | pipeline _ _ _ => cases hkind
  | project o p =>
    cases s' with
    | org _ => cases hkind
    | project o' p' =>
      have hpp := Id.toCanonical_inj hown
      simp only [orgId] at ho
      rw [ho, hpp]
    | pipeline _ _ _ => cases hkind
  | pipeline o p l =>
    cases s' with
    | org _ => cases hkind
    | project _ _ => cases hkind
    | pipeline o' p' l' =>
      have hll := Id.toCanonical_inj hown
      simp only [orgId] at ho hp hp'
      rw [hp, hp', ho, hll]

/-- Requests with one key have one answer on every database. -/
theorem Tables.queryPermissions_of_key {home : PipelineId → ProjectId} {p q : Principal}
    {s s' : Scope} (hs : Presented home p s) (hs' : Presented home q s') {k : CacheKey}
    (hk : DecisionCache.key p s = some k) (hk' : DecisionCache.key q s' = some k) (t : Tables) :
    t.queryPermissions p s = t.queryPermissions q s' := by
  obtain ⟨-, horg, hid, hkind, hown⟩ := DecisionCache.key_eq_key_iff.1 ⟨k, hk, hk'⟩
  rw [Scope.eq_of_presented hs hs' horg hkind hown]
  exact t.queryPermissions_congr horg hid s'

end Presented

namespace Shared

section Invariant

variable (home : PipelineId → ProjectId)

/-- `perms` is what the query yields on a version that is no older than the commits of the first
`n` increments. -/
def Sees (s : Shared) (n : ℕ) (principal : Principal) (scope : Scope)
    (perms : Finset Permission) : Prop :=
  ∃ v version, s.history[v]? = some version ∧ (∀ c ∈ s.bumps.take n, c ≤ v) ∧
    perms = version.tables.queryPermissions principal scope

def EntryOk (s : Shared) (key : CacheKey) (e : CacheEntry) : Prop :=
  ∃ n ≤ s.bumps.length, e.generation = n % 2 ^ 64 ∧
    ∃ principal scope, Presented home principal scope ∧
      DecisionCache.key principal scope = some key ∧ s.Sees n principal scope e.permissions

/-- What is so of a lookup at each point of `permissions`. -/
def PhaseOk (s : Shared) (call : LookupCall) : LookupPhase → Prop
  | .loaded key => DecisionCache.key call.principal call.scope = some key
  | .missed key => DecisionCache.key call.principal call.scope = some key
  | .querying key oldest => DecisionCache.key call.principal call.scope = some key ∧
      ∀ c ∈ s.bumps.take call.bumps, c ≤ oldest
  | .queried key perms => DecisionCache.key call.principal call.scope = some key ∧
      s.Sees call.bumps call.principal call.scope perms
  | .done (.ok perms) => s.Sees call.bumps call.principal call.scope perms
  | .done (.error _) => True

structure CallOk (s : Shared) (call : LookupCall) : Prop where
  bumps_le : call.bumps ≤ s.bumps.length
  genNow : call.genNow = call.bumps % 2 ^ 64
  presented : Presented home call.principal call.scope
  phase : s.PhaseOk call call.phase

/-- The invariant of every interleaving. -/
structure Tied (s : Shared) : Prop where
  generation : s.cache.generation = s.bumps.length % 2 ^ 64
  history : s.history ≠ []
  bumps : ∀ c ∈ s.bumps, c < s.history.length
  committed : ∀ w c, s.writers w = .committed c → c < s.history.length
  calls : ∀ who call, s.lookups who = some call → s.CallOk home call
  entries : ∀ key e, s.cache.entries key = some e → s.EntryOk home key e

theorem start_tied (now : ℕ) (tables : Tables) : (start now tables).Tied home where
  generation := rfl
  history := by simp [start]
  bumps := by simp [start]
  committed := by simp [start]
  calls := by simp [start]
  entries := by simp [start, DecisionCache.empty]

end Invariant

section Grows

/-- Versions and increments are only ever added. -/
def Grows (s s' : Shared) : Prop := s.history <+: s'.history ∧ s.bumps <+: s'.bumps

theorem Grows.refl (s : Shared) : s.Grows s := ⟨List.prefix_rfl, List.prefix_rfl⟩

theorem Grows.trans {s₁ s₂ s₃ : Shared} (h : s₁.Grows s₂) (h' : s₂.Grows s₃) : s₁.Grows s₃ :=
  ⟨h.1.trans h'.1, h.2.trans h'.2⟩

variable {s s' : Shared} (h : s.Grows s')

include h

theorem Grows.take_bumps {n : ℕ} (hn : n ≤ s.bumps.length) :
    s'.bumps.take n = s.bumps.take n := by
  obtain ⟨bs, hbs⟩ := h.2
  rw [← hbs, List.take_append_of_le_length hn]

theorem Grows.version {v : ℕ} {version : Version} (hv : s.history[v]? = some version) :
    s'.history[v]? = some version := by
  obtain ⟨hs, hhs⟩ := h.1
  rw [← hhs, List.getElem?_append_left (List.getElem?_eq_some_iff.1 hv).1, hv]

theorem Grows.sees {n : ℕ} {principal : Principal} {scope : Scope} {perms : Finset Permission}
    (hn : n ≤ s.bumps.length) (hsees : s.Sees n principal scope perms) :
    s'.Sees n principal scope perms := by
  obtain ⟨v, version, hv, hc, hp⟩ := hsees
  exact ⟨v, version, h.version hv, h.take_bumps hn ▸ hc, hp⟩

variable {home : PipelineId → ProjectId}

theorem Grows.entryOk {key : CacheKey} {e : CacheEntry} (he : s.EntryOk home key e) :
    s'.EntryOk home key e := by
  obtain ⟨n, hn, hgen, principal, scope, hp, hk, hsees⟩ := he
  exact ⟨n, hn.trans h.2.length_le, hgen, principal, scope, hp, hk, h.sees hn hsees⟩

theorem Grows.phaseOk {call : LookupCall} (hn : call.bumps ≤ s.bumps.length) :
    ∀ {phase : LookupPhase}, s.PhaseOk call phase → s'.PhaseOk call phase
  | .loaded _, hp => hp
  | .missed _, hp => hp
  | .querying _ _, hp => ⟨hp.1, h.take_bumps hn ▸ hp.2⟩
  | .queried _ _, hp => ⟨hp.1, h.sees hn hp.2⟩
  | .done (.ok _), hp => h.sees hn hp
  | .done (.error _), _ => trivial

theorem Grows.callOk {call : LookupCall} (hc : s.CallOk home call) : s'.CallOk home call where
  bumps_le := hc.bumps_le.trans h.2.length_le
  genNow := hc.genNow
  presented := hc.presented
  phase := h.phaseOk hc.bumps_le hc.phase

end Grows

section Step

variable {home : PipelineId → ProjectId} {s s' : Shared}

/-- The current version is no older than any commit. -/
theorem Tied.sees_current (h : s.Tied home) : ∃ version,
    s.history[s.history.length - 1]? = some version ∧ ∀ c ∈ s.bumps, c ≤ s.history.length - 1 := by
  have hpos := List.length_pos_iff.2 h.history
  refine ⟨_, List.getElem?_eq_getElem (by omega), fun c hc => ?_⟩
  have := h.bumps c hc
  omega

/-- An entry is only used by a lookup that loaded the generation after as many increments as the one
that filled it. -/
theorem Tied.hit_sees (h : s.Tied home) (hfew : s.bumps.length < 2 ^ 64) {call : LookupCall}
    (hc : s.CallOk home call) {key : CacheKey}
    (hk : DecisionCache.key call.principal call.scope = some key) {held : Finset Permission}
    (hhit : s.cache.hit key call.genNow s.clock = some held) :
    s.Sees call.bumps call.principal call.scope held := by
  unfold DecisionCache.hit at hhit
  split at hhit
  · cases hhit
  · rename_i e he
    split_ifs at hhit with hlive
    rw [Option.some.injEq] at hhit
    subst hhit
    obtain ⟨n, hn, hgen, principal, scope, hp, hk', v, version, hv, hcommits, hperms⟩ :=
      h.entries key e he
    have hsame : n = call.bumps := by
      have hle := hc.bumps_le
      have hmod : n % 2 ^ 64 = call.bumps % 2 ^ 64 := by
        rw [← hgen, hlive.1, hc.genNow]
      rwa [Nat.mod_eq_of_lt (by omega), Nat.mod_eq_of_lt (by omega)] at hmod
    subst hsame
    refine ⟨v, version, hv, hcommits, hperms.trans ?_⟩
    exact Tables.queryPermissions_of_key hp hc.presented hk' hk version.tables

/-- One step of a lookup: it stays within what is so of lookups, and leaves in the cache what was
there and perhaps an entry of its own. -/
theorem Tied.advance_ok (h : s.Tied home) (hfew : s.bumps.length < 2 ^ 64) {call : LookupCall}
    (hc : s.CallOk home call) {a : LookupStep} {phase : LookupPhase} {cache : DecisionCache}
    (ha : s.advance call a = some (phase, cache)) :
    s.PhaseOk call phase ∧ cache.generation = s.cache.generation ∧
      ∀ key e, cache.entries key = some e → s.EntryOk home key e := by
  have hphase := hc.phase
  unfold advance at ha
  split at ha
  · rename_i key hcall
    rw [hcall] at hphase
    split at ha
    · rename_i held hhit
      simp only [Option.some.injEq, Prod.mk.injEq] at ha
      obtain ⟨rfl, rfl⟩ := ha
      exact ⟨h.hit_sees hfew hc hphase hhit, rfl, h.entries⟩
    · simp only [Option.some.injEq, Prod.mk.injEq] at ha
      obtain ⟨rfl, rfl⟩ := ha
      exact ⟨hphase, rfl, h.entries⟩
  · rename_i key hcall
    rw [hcall] at hphase
    simp only [Option.some.injEq, Prod.mk.injEq] at ha
    obtain ⟨rfl, rfl⟩ := ha
    obtain ⟨-, -, hcurrent⟩ := h.sees_current
    exact ⟨⟨hphase, fun c hcm => hcurrent c (List.mem_of_mem_take hcm)⟩, rfl, h.entries⟩
  · rename_i key oldest version hcall
    rw [hcall] at hphase
    split at ha
    · rename_i v hv
      split_ifs at ha with hle
      simp only [Option.some.injEq, Prod.mk.injEq] at ha
      obtain ⟨rfl, rfl⟩ := ha
      refine ⟨⟨hphase.1, version, v, hv, fun c hcm => ?_, rfl⟩, rfl, h.entries⟩
      exact (hphase.2 c hcm).trans hle
    · cases ha
  · simp only [Option.some.injEq, Prod.mk.injEq] at ha
    obtain ⟨rfl, rfl⟩ := ha
    exact ⟨trivial, rfl, h.entries⟩
  · rename_i key perms hcall
    rw [hcall] at hphase
    simp only [Option.some.injEq, Prod.mk.injEq] at ha
    obtain ⟨rfl, rfl⟩ := ha
    refine ⟨hphase.2, rfl, fun key' e he => ?_⟩
    simp only [DecisionCache.fill] at he
    by_cases hkey : key' = key
    · subst hkey
      rw [Function.update_self, Option.some.injEq] at he
      subst he
      exact ⟨call.bumps, hc.bumps_le, hc.genNow, call.principal, call.scope, hc.presented,
        hphase.1, hphase.2⟩
    · rw [Function.update_of_ne hkey] at he
      exact h.entries key' e he
  · cases ha

/-- What a step can do, one case for each event. -/
inductive Moves (s : Shared) : Event → Shared → Prop
  | wait (elapsed : ℕ) : Moves s (.wait elapsed) { s with clock := s.clock + elapsed }
  | load {who principal scope} : s.lookups who = none →
      Moves s (.load who principal scope) (s.setLookup who (s.load principal scope))
  | move {who a call phase cache} : s.lookups who = some call →
      s.advance call a = some (phase, cache) →
      Moves s (.move who a) { s.setLookup who { call with phase } with cache }
  | commit {writer tables} : s.writers writer = .idle →
      Moves s (.commit writer tables) { s.setWriter writer (.committed s.history.length) with
        history := s.history ++ [⟨s.clock, tables⟩] }
  | bump {writer version} : s.writers writer = .committed version →
      Moves s (.bump writer) { s.setWriter writer .bumped with
        cache := s.cache.bump, bumps := s.bumps ++ [version] }
  | clear {writer} : s.writers writer = .bumped →
      Moves s (.clear writer) { s.setWriter writer .idle with cache := s.cache.clear }

theorem step_moves {e : Event} (hs : s.step e = some s') : s.Moves e s' := by
  unfold step at hs
  split at hs
  · cases hs
    exact .wait _
  · split at hs
    · cases hs
    · rename_i hnone
      cases hs
      exact .load hnone
  · split at hs
    · cases hs
    · rename_i call hcall
      split at hs
      · cases hs
      · rename_i phase cache ha
        cases hs
        exact .move hcall ha
  · split at hs
    · rename_i hw
      cases hs
      exact .commit hw
    · cases hs
  · split at hs
    · rename_i version hw
      cases hs
      exact .bump hw
    · cases hs
  · split at hs
    · rename_i hw
      cases hs
      exact .clear hw
    · cases hs

theorem step_grows {e : Event} (hs : s.step e = some s') : s.Grows s' ∧
    s'.bumps.length = s.bumps.length + [e].countP Event.isIncrement := by
  cases step_moves hs with
  | commit _ => exact ⟨⟨List.prefix_append _ _, List.prefix_rfl⟩, rfl⟩
  | bump _ =>
    exact ⟨⟨List.prefix_rfl, List.prefix_append _ _⟩, by simp [Event.isIncrement]⟩
  | _ => exact ⟨⟨List.prefix_rfl, List.prefix_rfl⟩, rfl⟩

theorem setLookup_grows (s : Shared) (who : ℕ) (call : LookupCall) (cache : DecisionCache) :
    s.Grows { s.setLookup who call with cache } :=
  ⟨List.prefix_rfl, List.prefix_rfl⟩

/-- What a lookup's move leaves alone. -/
theorem Tied.setLookup (h : s.Tied home) (who : ℕ) {call : LookupCall} (hc : s.CallOk home call)
    {cache : DecisionCache} (hgen : cache.generation = s.cache.generation)
    (hentries : ∀ key e, cache.entries key = some e → s.EntryOk home key e) :
    Tied home { s.setLookup who call with cache } where
  generation := hgen.trans h.generation
  history := h.history
  bumps := h.bumps
  committed := h.committed
  calls who' call' hcall := by
    have hok : s.CallOk home call' := by
      simp only [Shared.setLookup] at hcall
      by_cases hw : who' = who
      · subst hw
        rw [Function.update_self, Option.some.injEq] at hcall
        exact hcall ▸ hc
      · rw [Function.update_of_ne hw] at hcall
        exact h.calls who' call' hcall
    exact (setLookup_grows s who call cache).callOk hok
  entries key e he := (setLookup_grows s who call cache).entryOk (hentries key e he)

theorem Tied.setWriter (h : s.Tied home) (hg : s.Grows s') {writer : ℕ} {phase : WriterPhase}
    (hgen : s'.cache.generation = s'.bumps.length % 2 ^ 64)
    (hbumps : ∀ c ∈ s'.bumps, c < s'.history.length) (hlookups : s'.lookups = s.lookups)
    (hwriters : s'.writers = Function.update s.writers writer phase)
    (hphase : ∀ c, phase = .committed c → c < s'.history.length)
    (hentries : ∀ key e, s'.cache.entries key = some e → s.cache.entries key = some e) :
    s'.Tied home where
  generation := hgen
  history := hg.1.ne_nil h.history
  bumps := hbumps
  committed w c hw := by
    rw [hwriters] at hw
    by_cases he : w = writer
    · subst he
      rw [Function.update_self] at hw
      exact hphase c hw
    · rw [Function.update_of_ne he] at hw
      exact (h.committed w c hw).trans_le hg.1.length_le
  calls who call hcall := hg.callOk (h.calls who call (hlookups ▸ hcall))
  entries key e he := hg.entryOk (h.entries key e (hentries key e he))

/-- What one step of the interleaving keeps. -/
theorem step_tied (h : s.Tied home) (hfew : s.bumps.length < 2 ^ 64) {e : Event}
    (hpresented : ∀ who principal scope, e = .load who principal scope →
      Presented home principal scope) (hs : s.step e = some s') : s'.Tied home := by
  have hg := (step_grows hs).1
  cases step_moves hs with
  | wait elapsed =>
    exact ⟨h.generation, h.history, h.bumps, h.committed,
      fun who call hcall => hg.callOk (h.calls who call hcall),
      fun key e he => hg.entryOk (h.entries key e he)⟩
  | @load who principal scope _ =>
    have hp := hpresented who principal scope rfl
    refine h.setLookup who ⟨le_rfl, h.generation, hp, ?_⟩ rfl h.entries
    unfold load
    rcases hk : DecisionCache.key principal scope with _ | key
    · obtain ⟨version, hv, hcurrent⟩ := h.sees_current
      refine ⟨_, version, hv, fun c hc => hcurrent c (List.mem_of_mem_take hc), ?_⟩
      have hid : principal.idString = none := by
        simpa [DecisionCache.key] using hk
      simp [Tables.queryPermissions, hid]
    · exact hk
  | @move who a call phase cache hcall ha =>
    have hc := h.calls who call hcall
    obtain ⟨hphase, hgen, hentries⟩ := h.advance_ok hfew hc ha
    have hc' : s.CallOk home { call with phase } :=
      ⟨hc.bumps_le, hc.genNow, hc.presented, hphase⟩
    exact h.setLookup _ hc' hgen hentries
  | commit _ =>
    refine h.setWriter hg h.generation (fun c hc => ?_) rfl rfl (fun c hc => ?_) fun _ _ he => he
    · have := h.bumps c hc
      simp only [List.length_append]
      omega
    · cases hc
      simp
  | @bump writer version hw =>
    refine h.setWriter hg ?_ (fun c hc => ?_) rfl rfl (fun c hc => ?_) fun _ _ he => he
    · simp [DecisionCache.bump, h.generation]
    · rcases List.mem_append.1 hc with hc | hc
      · exact h.bumps c hc
      · rw [List.mem_singleton.1 hc]
        exact h.committed writer version hw
    · cases hc
  | clear _ =>
    exact h.setWriter hg h.generation h.bumps rfl rfl (fun c hc => by cases hc) fun _ _ he => by
      cases he

end Step

section Runs

variable {home : PipelineId → ProjectId}

theorem countP_cons_event (e : Event) (events : List Event) :
    (e :: events).countP Event.isIncrement
      = [e].countP Event.isIncrement + events.countP Event.isIncrement := by
  rw [← List.countP_append, List.singleton_append]

theorem exec_grows : ∀ {events : List Event} {s s' : Shared},
    Runs.exec step s events = some s' → s.Grows s' ∧
      s'.bumps.length = s.bumps.length + events.countP Event.isIncrement
  | [], s, s', h => by
    cases h
    exact ⟨Grows.refl s, rfl⟩
  | e :: events, s, s', h => by
    rcases hs : s.step e with _ | s₁
    · simp [Runs.exec, hs] at h
    · rw [Runs.exec_cons hs] at h
      obtain ⟨hg, hlen⟩ := exec_grows h
      obtain ⟨hg₁, hone⟩ := step_grows hs
      refine ⟨hg₁.trans hg, ?_⟩
      rw [hlen, hone, countP_cons_event e events]
      omega

/-- The loads of a run, all for scopes as the server presents them. -/
def AllPresented (home : PipelineId → ProjectId) (events : List Event) : Prop :=
  ∀ who principal scope, .load who principal scope ∈ events → Presented home principal scope

theorem exec_tied : ∀ {events : List Event} {s s' : Shared}, s.Tied home →
    AllPresented home events → s.bumps.length + events.countP Event.isIncrement < 2 ^ 64 →
      Runs.exec step s events = some s' → s'.Tied home
  | [], s, s', h, _, _, hrun => by
    cases hrun
    exact h
  | e :: events, s, s', h, hp, hfew, hrun => by
    rcases hs : s.step e with _ | s₁
    · simp [Runs.exec, hs] at hrun
    · rw [Runs.exec_cons hs] at hrun
      have hone := (step_grows hs).2
      rw [countP_cons_event e events] at hfew
      have h₁ := step_tied h (by omega) (fun who principal scope he =>
        hp who principal scope (he ▸ List.mem_cons_self)) hs
      exact exec_tied h₁ (fun who principal scope he =>
        hp who principal scope (List.mem_cons_of_mem _ he)) (by omega) hrun

/-- A lookup keeps who asks, what for and when it loaded the generation. -/
def SameCall (call call' : LookupCall) : Prop :=
  call'.principal = call.principal ∧ call'.scope = call.scope ∧ call'.bumps = call.bumps

theorem step_sameCall {s s' : Shared} {e : Event} (hs : s.step e = some s') {who : ℕ}
    {call : LookupCall} (hcall : s.lookups who = some call) :
    ∃ call', s'.lookups who = some call' ∧ SameCall call call' := by
  have hkeep : SameCall call call := ⟨rfl, rfl, rfl⟩
  cases step_moves hs with
  | @load who' principal scope hnone =>
    have hne : who ≠ who' := by
      rintro rfl
      simp [hnone] at hcall
    exact ⟨call, by simp [setLookup, Function.update_of_ne hne, hcall], hkeep⟩
  | @move who' a call₁ phase cache hcall₁ _ =>
    by_cases hw : who = who'
    · subst hw
      rw [hcall, Option.some.injEq] at hcall₁
      subst hcall₁
      exact ⟨_, Function.update_self .., rfl, rfl, rfl⟩
    · exact ⟨call, by simp [setLookup, Function.update_of_ne hw, hcall], hkeep⟩
  | _ => exact ⟨call, hcall, hkeep⟩

theorem exec_sameCall : ∀ {events : List Event} {s s' : Shared} {who : ℕ} {call : LookupCall},
    Runs.exec step s events = some s' → s.lookups who = some call →
      ∃ call', s'.lookups who = some call' ∧ SameCall call call'
  | [], s, s', who, call, h, hcall => by
    cases h
    exact ⟨call, hcall, rfl, rfl, rfl⟩
  | e :: events, s, s', who, call, h, hcall => by
    rcases hs : s.step e with _ | s₁
    · simp [Runs.exec, hs] at h
    · rw [Runs.exec_cons hs] at h
      obtain ⟨call₁, hcall₁, hp₁, hs₁, hb₁⟩ := step_sameCall hs hcall
      obtain ⟨call', hcall', hp', hs', hb'⟩ := exec_sameCall h hcall₁
      exact ⟨call', hcall', hp'.trans hp₁, hs'.trans hs₁, hb'.trans hb₁⟩

end Runs

section Alone

/-- A lookup that finds a live entry. -/
theorem exec_hit {s : Shared} {who : ℕ} (hfree : s.lookups who = none) {principal : Principal}
    {scope : Scope} {key : CacheKey} (hkey : DecisionCache.key principal scope = some key)
    {held : Finset Permission} (hhit : s.cache.hit key s.cache.generation s.clock = some held) :
    Runs.exec step s [.load who principal scope, .move who .read]
      = some (s.setLookup who { s.load principal scope with phase := .done (.ok held) }) := by
  have hload : s.step (.load who principal scope)
      = some (s.setLookup who (s.load principal scope)) := by
    simp only [step, hfree]
  rw [Runs.exec_cons hload]
  simp [Runs.exec, step, setLookup, advance, load, hkey, hhit, Function.update_idem]

/-- A lookup that nothing comes between is `permissions` on the current version. -/
theorem lookup_alone {s : Shared} {who : ℕ} (hfree : s.lookups who = none) {v : Version}
    (hlast : s.history.getLast? = some v) (principal : Principal) (scope : Scope) :
    ∃ (moves : List LookupStep) (s' : Shared) (call : LookupCall),
      Runs.exec step s (.load who principal scope :: moves.map (.move who)) = some s' ∧
      s'.lookups who = some call ∧
      call.phase = .done (s.cache.permissions (.ok v.tables) s.clock s.clock principal scope).1 ∧
      s'.cache = (s.cache.permissions (.ok v.tables) s.clock s.clock principal scope).2 := by
  have hload : s.step (.load who principal scope)
      = some (s.setLookup who (s.load principal scope)) := by
    simp only [step, hfree]
  unfold DecisionCache.permissions
  rcases hk : DecisionCache.key principal scope with _ | key
  · refine ⟨[], s.setLookup who (s.load principal scope), _, ?_, Function.update_self .., ?_, rfl⟩
    · rw [Runs.exec_cons hload]
      rfl
    · simp [load, hk]
  rcases hhit : s.cache.hit key s.cache.generation s.clock with _ | held
  · have hv : s.history[s.history.length - 1]? = some v := by
      rw [← List.getLast?_eq_getElem?, hlast]
    let perms := v.tables.queryPermissions principal scope
    let call : LookupCall := { s.load principal scope with phase := .done (.ok perms) }
    refine ⟨[.read, .begin, .finish (s.history.length - 1), .insert],
      { s.setLookup who call with cache := s.cache.fill key ⟨perms, s.cache.generation, s.clock⟩ },
      call, ?_, by simp [setLookup], by simp [call, hhit, perms], by simp [hhit, perms]⟩
    rw [Runs.exec_cons hload]
    simp [Runs.exec, step, setLookup, advance, load, hk, hhit, hv, Function.update_idem, call, perms]
  · let call : LookupCall := { s.load principal scope with phase := .done (.ok held) }
    refine ⟨[.read], s.setLookup who call, call, ?_, by simp [setLookup], by simp [call, hhit],
      by simp [hhit, setLookup]⟩
    exact exec_hit hfree hk hhit

end Alone

section Main

variable {home : PipelineId → ProjectId}

/-- While fewer than `2 ^ 64` increments are made, a lookup that loads the generation after an
invalidation's increment answers with what a version no older than the invalidation's commit
yields. -/
theorem lookup_sees_revocation {now : ℕ} {tables : Tables} {pre mid post : List Event}
    {writer who : ℕ} {principal : Principal} {scope : Scope} {s₁ s : Shared} {c : ℕ}
    {call : LookupCall} {perms : Finset Permission}
    (hpresented : AllPresented home
      (pre ++ .bump writer :: mid ++ .load who principal scope :: post))
    (hfew : (pre ++ .bump writer :: mid ++ .load who principal scope :: post).countP
      Event.isIncrement < 2 ^ 64)
    (hpre : Runs.exec step (start now tables) pre = some s₁)
    (hcommit : s₁.writers writer = .committed c)
    (hrun : Runs.exec step (start now tables)
      (pre ++ .bump writer :: mid ++ .load who principal scope :: post) = some s)
    (hcall : s.lookups who = some call) (hdone : call.phase = .done (.ok perms)) :
    ∃ v version, c ≤ v ∧ s.history[v]? = some version ∧
      perms = version.tables.queryPermissions principal scope := by
  have htied : s.Tied home := exec_tied (start_tied home now tables) hpresented
    (by rw [show (start now tables).bumps.length = 0 from rfl]; omega) hrun
  rw [Runs.exec_append, Runs.exec_append, hpre, Option.bind_some] at hrun
  rcases hbump : s₁.step (.bump writer) with _ | s₂
  · simp [Runs.exec, hbump] at hrun
  rw [Runs.exec_cons hbump] at hrun
  rcases hmid : Runs.exec step s₂ mid with _ | s₃
  · simp [hmid] at hrun
  rw [hmid, Option.bind_some] at hrun
  rcases hload : s₃.step (.load who principal scope) with _ | s₄
  · simp [Runs.exec, hload] at hrun
  rw [Runs.exec_cons hload] at hrun
  -- the commit is among the increments the lookup loaded the generation after
  have hc : c ∈ s₃.bumps := by
    refine (exec_grows hmid).1.2.subset ?_
    simp only [step, hcommit] at hbump
    cases hbump
    exact List.mem_append_right _ (List.mem_singleton_self c)
  obtain ⟨hcalled, hsame⟩ : s₄.lookups who = some (s₃.load principal scope) ∧
      s₄.bumps = s₃.bumps := by
    cases step_moves hload with
    | load _ => exact ⟨Function.update_self .., rfl⟩
  obtain ⟨call', hcall', hprincipal, hscope, hbumps⟩ := exec_sameCall hrun hcalled
  rw [hcall, Option.some.injEq] at hcall'
  subst hcall'
  have hphase := (htied.calls who call hcall).phase
  rw [hdone] at hphase
  obtain ⟨v, version, hv, hcommits, hperms⟩ := hphase
  refine ⟨v, version, hcommits c ?_, hv, ?_⟩
  · have htaken := (exec_grows hrun).1.take_bumps (hsame ▸ le_rfl : s₃.bumps.length ≤ _)
    rw [hbumps]
    change c ∈ s.bumps.take s₃.bumps.length
    rw [htaken, hsame, List.take_length]
    exact hc
  · rw [hperms, hprincipal, hscope]
    rfl

end Main

end Shared

section Samples

namespace Shared

def revokedTables : Tables := { sampleDb.toTables with roleAssignments := [] }

theorem queryPermissions_revoked (principal : Principal) (scope : Scope) :
    revokedTables.queryPermissions principal scope = ∅ := by
  refine Finset.eq_empty_of_forall_notMem fun p hp => ?_
  obtain ⟨_, -, grant, hgrant, -⟩ := revokedTables.mem_queryPermissions.1 hp
  cases hgrant

abbrev sampleScope : Scope := samplePipeline sampleUlid

/-- One lookup that finds nothing in the cache, and a commit it has not seen. -/
def slowLookup : List Event :=
  [.load 0 sampleUser sampleScope, .move 0 .read, .move 0 .begin, .move 0 (.finish 0),
    .commit 0 revokedTables]

def invalidation : List Event := [.commit 0 revokedTables, .bump 0, .clear 0]

theorem exec_invalidations : ∀ (n : ℕ) (s : Shared), s.writers 0 = .idle →
    s.cache.generation < 2 ^ 64 → ∃ s', Runs.exec step s (List.replicate n invalidation).flatten
        = some s' ∧ s'.cache.generation = (s.cache.generation + n) % 2 ^ 64 ∧
      s'.lookups = s.lookups ∧ s'.clock = s.clock ∧
      s'.history = s.history ++ List.replicate n ⟨s.clock, revokedTables⟩
  | 0, s, _, hgen => ⟨s, rfl, (Nat.mod_eq_of_lt hgen).symm, rfl, rfl, by simp⟩
  | n + 1, s, hidle, hgen => by
    have hone : Runs.exec step s invalidation = some ⟨s.clock, s.history ++
        [⟨s.clock, revokedTables⟩], s.cache.bump.clear, s.bumps ++ [s.history.length], s.lookups,
          s.writers⟩ := by
      simp [Runs.exec, invalidation, step, hidle, setWriter]
    obtain ⟨s', hrun, hg, hl, hc, hh⟩ := exec_invalidations n ⟨s.clock, s.history ++
      [⟨s.clock, revokedTables⟩], s.cache.bump.clear, s.bumps ++ [s.history.length], s.lookups,
        s.writers⟩ hidle (Nat.mod_lt _ (by decide))
    refine ⟨s', ?_, ?_, hl, hc, ?_⟩
    · rw [List.replicate_succ, List.flatten_cons, Runs.exec_append, hone]
      exact hrun
    · rw [hg]
      simp only [DecisionCache.bump, DecisionCache.clear]
      omega
    · rw [hh, List.replicate_succ, List.append_assoc]
      rfl

/-- A lookup under way since before the first increment. -/
def slowCall (key : CacheKey) (perms : Finset Permission) : LookupCall :=
  ⟨sampleUser, sampleScope, 0, 0, 0, .queried key perms⟩

theorem exec_slowLookup (t : Tables) : ∃ s₁ key, DecisionCache.key sampleUser sampleScope = some key ∧
    Runs.exec step (start 0 t) slowLookup = some s₁ ∧ s₁.writers 0 = .committed 1 ∧
      ∃ s₂, Runs.exec step s₁ [.bump 0, .clear 0] = some s₂ ∧ s₂.writers 0 = .idle ∧
        s₂.cache.generation = 1 ∧ s₂.clock = 0 ∧ s₂.history = [⟨0, t⟩, ⟨0, revokedTables⟩] ∧
        s₂.lookups = Function.update (fun _ => none) 0
          (some (slowCall key (t.queryPermissions sampleUser sampleScope))) := by
  refine ⟨_, _, rfl, rfl, rfl, _, rfl, rfl, rfl, rfl, rfl, ?_⟩
  simp only [setLookup, setWriter, start, Function.update_idem]
  rfl

def wrapMid (n : ℕ) : List Event :=
  .clear 0 :: ((List.replicate n invalidation).flatten ++ [.move 0 .insert])

/-- `n` more invalidations, and only then does the first lookup fill the cache. -/
def wrapRun (n : ℕ) : List Event :=
  slowLookup ++ .bump 0 :: wrapMid n ++ .load 1 sampleUser sampleScope :: [.move 1 .read]

theorem wrapRun_presented (n : ℕ) : AllPresented (fun _ => ⟨sampleUlid⟩) (wrapRun n) := by
  intro who principal scope hmem
  have hsample : principal = sampleUser ∧ scope = sampleScope := by
    simp only [wrapRun, wrapMid, slowLookup, List.cons_append, List.nil_append, List.append_assoc,
      List.mem_cons, List.mem_append, List.mem_flatten, List.mem_replicate] at hmem
    have hno : ¬ ∃ l, (n ≠ 0 ∧ l = invalidation) ∧ .load who principal scope ∈ l := by
      rintro ⟨l, ⟨-, rfl⟩, hl⟩
      simp [invalidation] at hl
    simp only [hno, Event.load.injEq, List.not_mem_nil, reduceCtorEq, or_false, false_or] at hmem
    rcases hmem with ⟨-, h⟩ | ⟨-, h⟩
    · exact h
    · exact h
  rw [hsample.1, hsample.2]
  exact ⟨rfl, rfl⟩

theorem exec_wrapRun (t : Tables) {n : ℕ} (hn : (1 + n) % 2 ^ 64 = 0) :
    ∃ s call, Runs.exec step (start 0 t) (wrapRun n) = some s ∧ s.lookups 1 = some call ∧
      call.phase = .done (.ok (t.queryPermissions sampleUser sampleScope)) ∧
      s.history = [⟨0, t⟩, ⟨0, revokedTables⟩] ++ List.replicate n ⟨0, revokedTables⟩ := by
  obtain ⟨s₁, key, hkey, hslow, -, s₂, hinv, hidle, hgen, hclock, hhistory, hlookups⟩ :=
    exec_slowLookup t
  obtain ⟨s₃, hrest, hgen₃, hlookups₃, hclock₃, hhistory₃⟩ :=
    exec_invalidations n s₂ hidle (by omega)
  have hzero : s₃.cache.generation = 0 := by
    rw [hgen₃, hgen, hn]
  have hcall : s₃.lookups 0
      = some (slowCall key (t.queryPermissions sampleUser sampleScope)) := by
    rw [hlookups₃, hlookups, Function.update_self]
  have hnone : s₃.lookups 1 = none := by
    rw [hlookups₃, hlookups, Function.update_of_ne (by decide)]
  let s₄ : Shared := { s₃.setLookup 0 { slowCall key (t.queryPermissions sampleUser sampleScope) with
      phase := .done (.ok (t.queryPermissions sampleUser sampleScope)) } with
    cache := s₃.cache.fill key ⟨t.queryPermissions sampleUser sampleScope, 0, s₃.clock⟩ }
  have hinsert : s₃.step (.move 0 .insert) = some s₄ := by
    simp only [step, hcall, advance, slowCall, s₄]
  have hfree : s₄.lookups 1 = none := by
    simp only [s₄, setLookup, Function.update_of_ne (show (1 : ℕ) ≠ 0 by decide), hnone]
  have hhit : s₄.cache.hit key s₄.cache.generation s₄.clock
      = some (t.queryPermissions sampleUser sampleScope) := by
    have hpos : 0 < cacheTtl := by decide
    simp [s₄, DecisionCache.fill, DecisionCache.hit, setLookup, hzero, hpos]
  let call : LookupCall := { s₄.load sampleUser sampleScope with
    phase := .done (.ok (t.queryPermissions sampleUser sampleScope)) }
  refine ⟨s₄.setLookup 1 call, call, ?_, by simp [setLookup], rfl, ?_⟩
  · have hbump : Runs.exec step (start 0 t) (slowLookup ++ [.bump 0, .clear 0]) = some s₂ := by
      rw [Runs.exec_append, hslow]
      exact hinv
    have hsplit : wrapRun n = (slowLookup ++ [.bump 0, .clear 0])
        ++ ((List.replicate n invalidation).flatten
          ++ [.move 0 .insert, .load 1 sampleUser sampleScope, .move 1 .read]) := by
      simp [wrapRun, wrapMid]
    rw [hsplit, Runs.exec_append, hbump, Option.bind_some, Runs.exec_append, hrest,
      Option.bind_some, Runs.exec_cons hinsert]
    exact exec_hit hfree hkey hhit
  · simp only [s₄, setLookup, hhistory₃, hhistory, hclock]

/-- After `2 ^ 64` increments the generation is again the one the first lookup loaded, and its entry
from before the first commit is used. -/
theorem stale_after_wrap : ∃ s₁ s call perms,
    Runs.exec step (start 0 sampleDb.toTables) slowLookup = some s₁ ∧
      s₁.writers 0 = .committed 1 ∧
      AllPresented (fun _ => ⟨sampleUlid⟩) (wrapRun (2 ^ 64 - 1)) ∧
      Runs.exec step (start 0 sampleDb.toTables) (slowLookup ++ .bump 0 :: wrapMid (2 ^ 64 - 1) ++
        .load 1 sampleUser sampleScope :: [.move 1 .read]) = some s ∧
      s.lookups 1 = some call ∧ call.phase = .done (.ok perms) ∧
      ¬ ∃ v version, 1 ≤ v ∧ s.history[v]? = some version ∧
        perms = version.tables.queryPermissions sampleUser sampleScope := by
  obtain ⟨s₁, -, -, hslow, hcommitted, -⟩ := exec_slowLookup sampleDb.toTables
  obtain ⟨s, call, hrun, hcall, hdone, hhistory⟩ :=
    exec_wrapRun sampleDb.toTables (n := 2 ^ 64 - 1) (by decide)
  refine ⟨s₁, s, call, _, hslow, hcommitted, wrapRun_presented _, hrun, hcall, hdone, ?_⟩
  rintro ⟨v, version, hv, hversion, hperms⟩
  have hrevoked : version.tables = revokedTables := by
    rw [hhistory] at hversion
    have hmem : version ∈ (List.replicate (2 ^ 64 - 1 + 1) (⟨0, revokedTables⟩ : Version)) := by
      rw [List.replicate_succ]
      obtain ⟨v, rfl⟩ := Nat.exists_eq_add_of_le' hv
      exact List.mem_of_getElem? hversion
    rw [List.eq_of_mem_replicate hmem]
  rw [hrevoked, queryPermissions_revoked] at hperms
  have hheld := (sample_orgRead sampleScope).2 (List.mem_cons_of_mem _ List.mem_cons_self)
  rw [hperms] at hheld
  cases hheld

/-- A lookup after an invalidation that is over. -/
def quietRun : List Event :=
  [.commit 0 revokedTables] ++ .bump 0 :: [.clear 0] ++ .load 1 sampleUser sampleScope ::
    [.move 1 .read, .move 1 .begin, .move 1 (.finish 1), .move 1 .insert]

theorem exec_quietRun (t : Tables) : ∃ s₁ s call perms,
    Runs.exec step (start 0 t) [.commit 0 revokedTables] = some s₁ ∧
      s₁.writers 0 = .committed 1 ∧ Runs.exec step (start 0 t) quietRun = some s ∧
      s.lookups 1 = some call ∧ call.phase = .done (.ok perms) :=
  ⟨_, _, _, _, rfl, rfl, rfl, rfl, rfl⟩

theorem quietRun_presented : AllPresented (fun _ => ⟨sampleUlid⟩) quietRun := by
  intro who principal scope hmem
  simp only [quietRun, List.cons_append, List.nil_append, List.mem_cons, Event.load.injEq,
    List.not_mem_nil, reduceCtorEq, or_false, false_or] at hmem
  obtain ⟨-, rfl, rfl⟩ := hmem
  exact ⟨rfl, rfl⟩

theorem quiet_lookup_sees : ∃ s call perms,
    Runs.exec step (start 0 sampleDb.toTables) quietRun = some s ∧ s.lookups 1 = some call ∧
      call.phase = .done (.ok perms) ∧ ∃ v version, 1 ≤ v ∧ s.history[v]? = some version ∧
        perms = version.tables.queryPermissions sampleUser sampleScope := by
  obtain ⟨s₁, s, call, perms, hpre, hcommit, hrun, hcall, hdone⟩ := exec_quietRun sampleDb.toTables
  have hfew : quietRun.countP Event.isIncrement < 2 ^ 64 := by
    simp [quietRun, List.countP_cons, Event.isIncrement]
  exact ⟨s, call, perms, hrun, hcall, hdone,
    lookup_sees_revocation quietRun_presented hfew hpre hcommit hrun hcall hdone⟩

end Shared

end Samples

end Jetrun
