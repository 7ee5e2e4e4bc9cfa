import Jetrun.Proofs.Revocation
import Jetrun.Staleness

/-!
# Age does not bound staleness

An entry that is put in while what it holds is current is not used once that is older than the
bound. But a lookup may be slow between its query and its insertion, and then the entry starts its
life with what was out of date already.
-/

namespace Jetrun

namespace Shared

variable {home : PipelineId → ProjectId} {s s' : Shared}

section Growth

/-- What is added to the history is no older than the clock was. -/
structure Later (s s' : Shared) : Prop where
  history : s.history <+: s'.history
  clock : s.clock ≤ s'.clock
  since : ∀ i version, s.history.length ≤ i → s'.history[i]? = some version →
    s.clock ≤ version.since

theorem Later.version (h : s.Later s') {v : ℕ} {version : Version}
    (hv : s.history[v]? = some version) : s'.history[v]? = some version := by
  obtain ⟨hs, hhs⟩ := h.history
  rw [← hhs, List.getElem?_append_left (List.getElem?_eq_some_iff.1 hv).1, hv]

/-- A version after those that were there before `t`, if it is one of them, or else later. -/
theorem Later.next (h : s.Later s') {i t : ℕ} (ht : t ≤ s.clock)
    (hold : ∀ next, s.history[i]? = some next → t ≤ next.since) {next : Version}
    (hnext : s'.history[i]? = some next) : t ≤ next.since := by
  by_cases hi : i < s.history.length
  · have hsame := h.version (List.getElem?_eq_getElem hi)
    rw [hsame] at hnext
    exact hold next (Option.some.inj hnext ▸ List.getElem?_eq_getElem hi)
  · exact ht.trans (h.since i next (by omega) hnext)

variable {principal : Principal} {scope : Scope} {perms : Finset Permission}

theorem Later.currentAt (h : s.Later s') {t : ℕ} (ht : t ≤ s.clock)
    (hcurrent : s.CurrentAt t principal scope perms) : s'.CurrentAt t principal scope perms := by
  obtain ⟨v, version, hv, hperms, hnext⟩ := hcurrent
  exact ⟨v, version, h.version hv, hperms, fun next => h.next ht hnext⟩

theorem Later.withinTtl (h : s.Later s') {call : LookupCall} (hbegan : call.began ≤ s.clock)
    (hwithin : s.WithinTtl call perms) : s'.WithinTtl call perms := by
  obtain ⟨v, version, hv, hperms, hnext⟩ := hwithin
  refine ⟨v, version, h.version hv, hperms, fun next hn => ?_⟩
  have hpos : 0 < cacheTtl := by decide
  have hlate : call.began + 1 - cacheTtl ≤ next.since :=
    h.next (by omega) (fun next hn => by have := hnext next hn; omega) hn
  omega

end Growth

section Invariant

variable (home)

def PhaseBounded (s : Shared) (call : LookupCall) : LookupPhase → Prop
  | .loaded key | .missed key => DecisionCache.key call.principal call.scope = some key
  | .querying key oldest => DecisionCache.key call.principal call.scope = some key ∧
      ∀ i version, oldest < i → s.history[i]? = some version → call.began ≤ version.since
  | .queried key perms => DecisionCache.key call.principal call.scope = some key ∧
      s.CurrentAt call.began call.principal call.scope perms
  | .done (.ok perms) => s.WithinTtl call perms
  | .done (.error _) => True

structure CallBounded (s : Shared) (call : LookupCall) : Prop where
  began : call.began ≤ s.clock
  presented : Presented home call.principal call.scope
  phase : s.PhaseBounded call call.phase

/-- An entry holds what was current when it was put in. -/
def EntryBounded (s : Shared) (key : CacheKey) (e : CacheEntry) : Prop :=
  e.filledAt ≤ s.clock ∧ ∃ principal scope, Presented home principal scope ∧
    DecisionCache.key principal scope = some key ∧
    s.CurrentAt e.filledAt principal scope e.permissions

structure Dated (s : Shared) : Prop where
  history : s.history ≠ []
  calls : ∀ who call, s.lookups who = some call → s.CallBounded home call
  entries : ∀ key e, s.cache.entries key = some e → s.EntryBounded home key e

variable {home}

theorem Later.callBounded (h : s.Later s') {call : LookupCall} (hc : s.CallBounded home call) :
    s'.CallBounded home call := by
  refine ⟨hc.began.trans h.clock, hc.presented, ?_⟩
  have hphase := hc.phase
  cases hcall : call.phase with
  | loaded key => rwa [hcall] at hphase
  | missed key => rwa [hcall] at hphase
  | querying key oldest =>
    rw [hcall] at hphase
    exact ⟨hphase.1, fun i version hi => h.next hc.began (hphase.2 i · hi)⟩
  | queried key perms =>
    rw [hcall] at hphase
    exact ⟨hphase.1, h.currentAt hc.began hphase.2⟩
  | done answer =>
    rw [hcall] at hphase
    cases answer with
    | error e => trivial
    | ok perms => exact h.withinTtl hc.began hphase

theorem Later.entryBounded (h : s.Later s') {key : CacheKey} {e : CacheEntry}
    (he : s.EntryBounded home key e) : s'.EntryBounded home key e := by
  obtain ⟨hfilled, principal, scope, hp, hk, hcurrent⟩ := he
  exact ⟨hfilled.trans h.clock, principal, scope, hp, hk, h.currentAt hfilled hcurrent⟩

end Invariant

section Step

/-- An entry that is used is within the bound: it was current when it was put in, and that was less
than the bound ago. -/
theorem Dated.hit_within (h : s.Dated home) {call : LookupCall} (hc : s.CallBounded home call)
    {key : CacheKey} (hk : DecisionCache.key call.principal call.scope = some key)
    {held : Finset Permission} (hhit : s.cache.hit key call.genNow s.clock = some held) :
    s.WithinTtl call held := by
  unfold DecisionCache.hit at hhit
  split at hhit
  · cases hhit
  · rename_i e he
    split_ifs at hhit with hlive
    obtain rfl := Option.some.inj hhit
    obtain ⟨hfilled, principal, scope, hp, hk', v, version, hv, hperms, hnext⟩ := h.entries key e he
    have hsame := Tables.queryPermissions_of_key hp hc.presented hk' hk version.tables
    refine ⟨v, version, hv, hperms.trans hsame, fun next hn => ?_⟩
    have hold := hnext next hn
    have hage := hlive.2
    have hbegan := hc.began
    omega

/-- What a lookup's move makes of it, and what it leaves in the cache. -/
theorem Dated.advance (h : s.Dated home) {call : LookupCall} (hc : s.CallBounded home call)
    {a : LookupStep} {phase : LookupPhase} {cache : DecisionCache}
    (htime : ∀ key perms, a = .insert → call.phase = .queried key perms →
      s.CurrentAt s.clock call.principal call.scope perms)
    (ha : s.advance call a = some (phase, cache)) :
    s.PhaseBounded call phase ∧
      ∀ key e, cache.entries key = some e → s.EntryBounded home key e := by
  have hphase := hc.phase
  unfold Shared.advance at ha
  split at ha
  · rename_i key hcall
    rw [hcall] at hphase
    split at ha
    · rename_i held hhit
      simp only [Option.some.injEq, Prod.mk.injEq] at ha
      obtain ⟨rfl, rfl⟩ := ha
      exact ⟨h.hit_within hc hphase hhit, h.entries⟩
    · simp only [Option.some.injEq, Prod.mk.injEq] at ha
      obtain ⟨rfl, rfl⟩ := ha
      exact ⟨hphase, h.entries⟩
  · rename_i key hcall
    rw [hcall] at hphase
    simp only [Option.some.injEq, Prod.mk.injEq] at ha
    obtain ⟨rfl, rfl⟩ := ha
    refine ⟨⟨hphase, fun i version hi hv => ?_⟩, h.entries⟩
    have hlen := (List.getElem?_eq_some_iff.1 hv).1
    omega
  · rename_i key oldest version hcall
    rw [hcall] at hphase
    split at ha
    · rename_i v hv
      split_ifs at ha with hle
      simp only [Option.some.injEq, Prod.mk.injEq] at ha
      obtain ⟨rfl, rfl⟩ := ha
      refine ⟨⟨hphase.1, version, v, hv, rfl, fun next hnext => ?_⟩, h.entries⟩
      exact hphase.2 _ next (by omega) hnext
    · cases ha
  · simp only [Option.some.injEq, Prod.mk.injEq] at ha
    obtain ⟨rfl, rfl⟩ := ha
    exact ⟨trivial, h.entries⟩
  · rename_i key perms hcall
    rw [hcall] at hphase
    simp only [Option.some.injEq, Prod.mk.injEq] at ha
    obtain ⟨rfl, rfl⟩ := ha
    have hpos : 0 < cacheTtl := by decide
    refine ⟨?_, fun key' e he => ?_⟩
    · obtain ⟨v, version, hv, hperms, hnext⟩ := hphase.2
      exact ⟨v, version, hv, hperms, fun next hn => by have := hnext next hn; omega⟩
    · simp only [DecisionCache.fill] at he
      by_cases hkey : key' = key
      · subst hkey
        rw [Function.update_self, Option.some.injEq] at he
        subst he
        exact ⟨le_rfl, call.principal, call.scope, hc.presented, hphase.1,
          htime key' perms rfl hcall⟩
      · rw [Function.update_of_ne hkey] at he
        exact h.entries key' e he
  · cases ha

/-- One lookup is as it should be, and the others are as they were. -/
theorem Dated.setLookup (h : s.Dated home) (who : ℕ) {call : LookupCall}
    (hc : s.CallBounded home call) {cache : DecisionCache}
    (hentries : ∀ key e, cache.entries key = some e → s.EntryBounded home key e) :
    Dated home { s.setLookup who call with cache } := by
  have hlater : s.Later { s.setLookup who call with cache } := by
    refine ⟨List.prefix_rfl, le_rfl, fun i version hi hv => ?_⟩
    have hlen : i < s.history.length := (List.getElem?_eq_some_iff.1 hv).1
    omega
  refine ⟨h.history, fun who' call' hcall => hlater.callBounded ?_,
    fun key e he => hlater.entryBounded (hentries key e he)⟩
  simp only [Shared.setLookup] at hcall
  by_cases hw : who' = who
  · subst hw
    rw [Function.update_self, Option.some.injEq] at hcall
    exact hcall ▸ hc
  · rw [Function.update_of_ne hw] at hcall
    exact h.calls who' call' hcall

end Step

section Main

end Main

section Late

end Late

section Samples

end Samples

end Shared

end Jetrun
