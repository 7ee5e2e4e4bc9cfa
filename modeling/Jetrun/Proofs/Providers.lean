import Jetrun.Proofs.Http

/-!
# One guard for three providers

The guard knows a delivery by its id alone, and the providers choose their ids without each other.
While no two of them use one id, every provider is answered as if it were the only one.
-/

namespace Jetrun

section Remembered

variable {crates : Crates} {state state' : ServerState} {r : WebhookRequest} {handled : Handled}

/-- The guard is asked only for a request that is verified. -/
theorem Outcome.verified (h : Outcome crates state r handled state')
    (hchecked : handled.checked ≠ none) :
    ∃ provider verified, Verifies crates state r provider verified := by
  cases h with
  | refused => exact absurd rfl hchecked
  | repeated hv hcheck => exact ⟨_, _, hv⟩
  | malformed hv hcheck hnew hparse => exact ⟨_, _, hv⟩
  | dispatched hv hcheck hnew hparse => exact ⟨_, _, hv⟩

theorem Verifies.identified {provider : Provider} {verified : Verified} {id : String}
    (h : Verifies crates state r provider verified) (hid : r.deliveryId = some id)
    (hkept : DeliveryGuard.identifies id) : Identified crates state.secrets r provider id :=
  ⟨h.path, ⟨verified, h.verify⟩, hid, hkept⟩

/-- A request asks the guard nothing that it reads the clock for, or about an id. -/
theorem Outcome.question (h : Outcome crates state r handled state') :
    (Exchange.reading (r, handled) = none ∧ state' = state) ∨
      ∃ provider id, Identified crates state.secrets r provider id ∧
        Exchange.reading (r, handled) = some r.now ∧
        state' = { state with deliveries := (state.deliveries.touch r.now id).2 } := by
  rcases h.after with ⟨hchecked, rfl⟩ | ⟨hchecked, rfl⟩
  · exact .inl ⟨by simp [Exchange.reading, hchecked], rfl⟩
  rcases state.deliveries.check_cases r.deliveryId r.now with ⟨k, hid, hkept, hc⟩ | ⟨-, hc⟩
  · obtain ⟨provider, verified, hv⟩ := h.verified (by simp [hchecked])
    rw [hc] at hchecked ⊢
    refine .inr ⟨provider, k, hv.identified hid hkept, ?_, rfl⟩
    unfold Exchange.reading
    rw [hchecked]
    split_ifs <;> simp_all
  · rw [hc] at hchecked ⊢
    exact .inl ⟨by simp [Exchange.reading, hchecked], rfl⟩

/-- Each id that the guard remembers was sent by a provider when the guard says it was. -/
structure Known (crates : Crates) (s : Served) : Prop where
  room : 0 < s.state.deliveries.capacity
  keys : (s.state.deliveries.seen.map (·.1)).Nodup
  sent : ∀ e ∈ s.state.deliveries.seen, ∃ d ∈ s.log, d.1.now = e.2 ∧
    ∃ provider, Identified crates s.state.secrets d.1 provider e.1

variable {s s' : Served}

theorem Known.live (h : Known crates s) {now t : ℕ} {k : String}
    (hlive : s.state.deliveries.live now k = some t) : ∃ d ∈ s.log, d.1.now = t ∧
      now - t < s.state.deliveries.ttl ∧ ∃ provider, Identified crates s.state.secrets d.1 provider k := by
  obtain ⟨hfind, hage⟩ := Recency.Window.live_eq_some.1 hlive
  obtain ⟨d, hd, htime, hnamed⟩ := h.sent _ (Recency.mem_of_find hfind)
  exact ⟨d, hd, htime, hage, hnamed⟩

theorem known_step (hs : Known crates s) (h : serve crates s r = some s') : Known crates s' := by
  obtain ⟨handled, state', hout, rfl⟩ := serve_outcome h
  rcases hout.question with ⟨-, rfl⟩ | ⟨provider, id, hnamed, -, rfl⟩
  · refine ⟨hs.room, hs.keys, fun e he => ?_⟩
    obtain ⟨d, hd, hsent⟩ := hs.sent e he
    exact ⟨d, List.mem_append_left _ hd, hsent⟩
  · refine ⟨?_, Recency.Window.touch_keys hs.keys hs.room, fun e he => ?_⟩
    · simpa using hs.room
    rcases s.state.deliveries.touch_seen hs.room r.now id e he with hold | ⟨-, rfl⟩
    · obtain ⟨d, hd, hsent⟩ := hs.sent e hold
      exact ⟨d, List.mem_append_left _ hd, hsent⟩
    · exact ⟨(r, handled), by simp, rfl, provider, hnamed⟩

/-- A repeat is one of a live id. -/
theorem duplicate_live (hs : Known crates s) (hout : Outcome crates s.state r handled state')
    (hdup : Exchange.isDuplicate (r, handled)) :
    ∃ provider id t, Identified crates s.state.secrets r provider id ∧
      s.state.deliveries.live r.now id = some t := by
  have hcheck := duplicate_repeated hout hdup
  rcases hout.after with ⟨hchecked, -⟩ | ⟨hchecked, -⟩
  · -- an answer that the guard had no part in is not one for a repeat
    have hsuccess : handled.response.isSuccess := by
      rw [show handled.response = _ from hdup]
      exact Ack.ignored_success _
    cases hout with
    | refused response hfail =>
      rw [hfail] at hsuccess
      cases hsuccess
    | repeated => cases hchecked
    | malformed => cases hchecked
    | dispatched => cases hchecked
  · obtain ⟨provider, verified, hv⟩ := hout.verified (by simp [hchecked])
    rcases s.state.deliveries.check_cases r.deliveryId r.now with ⟨k, hid, hkept, hc⟩ | ⟨-, hc⟩
    · rw [hc, Recency.Window.touch_repeats hs.keys] at hcheck
      have hsome : (s.state.deliveries.live r.now k).isSome := by
        by_contra hne
        simp [hne] at hcheck
      obtain ⟨t, ht⟩ := Option.isSome_iff_exists.1 hsome
      exact ⟨provider, k, t, hv.identified hid hkept, ht⟩
    · rw [hc] at hcheck
      cases hcheck

/-- The guard remembers no more ids than were sent. -/
theorem Known.length_le (h : Known crates s) :
    s.state.deliveries.seen.length ≤ (ids s.log).card := by
  rw [← List.length_map (·.1), ← List.toFinset_card_of_nodup h.keys]
  refine Finset.card_le_card fun k hk => ?_
  obtain ⟨e, he, rfl⟩ := List.mem_map.1 (List.mem_toFinset.1 hk)
  obtain ⟨d, hd, -, provider, hnamed⟩ := h.sent e he
  exact List.mem_toFinset.2 (List.mem_filterMap.2 ⟨d, hd, hnamed.deliveryId⟩)

end Remembered

section Alone

variable {crates : Crates} {s t s' : Served} {r : WebhookRequest}

/-- What a request is answered depends on the guard only by what it says, if it is asked. -/
theorem webhook_guard {state : ServerState} (guard : DeliveryGuard)
    (h : ∀ provider verified, Verifies crates state r provider verified →
      (guard.check r.deliveryId r.now).1 = (state.deliveries.check r.deliveryId r.now).1) :
    (webhook crates { state with deliveries := guard } r).1 = (webhook crates state r).1 := by
  unfold webhook
  cases hpath : Provider.ofPath r.provider with
  | none => rfl
  | some provider =>
    simp only [show ServerState.webhookSecret { state with deliveries := guard } provider
      = state.webhookSecret provider from rfl]
    cases hverify : verify crates.hmac provider (Headers.ofMap r.headers) r.body
        ((state.webhookSecret provider).map Utf8.encode) with
    | error e => rfl
    | ok verified =>
      have hv : Verifies crates state r provider verified := ⟨hpath, hverify⟩
      simp only [← hv.deliveryId]
      rw [← h provider verified hv]
      by_cases hdup : (guard.check r.deliveryId r.now).1 = .duplicate
      · simp [hdup]
      · simp only [hdup, if_false]
        cases Webhook.parse crates.fromSlice provider (Headers.ofMap r.headers) r.body verified with
        | error e => rfl
        | ok event => rfl

/-- The clock goes forward for the guard, and there is room for all the ids. -/
def Roomy (s : Served) : Prop :=
  (readings s.log).Pairwise (· ≤ ·) ∧ (ids s.log).card < s.state.deliveries.capacity

theorem Roomy.before {state : ServerState} {e : Exchange}
    (hcapacity : state.deliveries.capacity = s.state.deliveries.capacity)
    (h : Roomy ⟨state, s.log ++ [e]⟩) : Roomy s ∧
      ∀ now, e.reading = some now → ∀ earlier ∈ readings s.log, earlier ≤ now := by
  obtain ⟨hclock, hroom⟩ := h
  rw [readings_concat, List.pairwise_append] at hclock
  obtain ⟨hold, -, hlater⟩ := hclock
  refine ⟨⟨hold, ?_⟩, fun now hread earlier hearlier => hlater earlier hearlier now (by simp [hread])⟩
  rw [← hcapacity]
  refine lt_of_le_of_lt (Finset.card_le_card fun k hk => ?_) hroom
  simp only [ids, List.mem_toFinset, List.filterMap_append, List.mem_append] at hk ⊢
  exact .inl hk

/-- The server, and one that was only asked for `provider`. What both remember they remember alike,
and what only the first remembers another provider sent. -/
structure Shadows (crates : Crates) (provider : Provider) (s t : Served) : Prop where
  log : t.log = s.log.filter fun e => isFor provider e.1
  state : t.state = { s.state with deliveries := t.state.deliveries }
  ttl : t.state.deliveries.ttl = s.state.deliveries.ttl
  capacity : t.state.deliveries.capacity = s.state.deliveries.capacity
  known : Known crates s
  known' : Known crates t
  dead : ∀ now, (∀ earlier ∈ readings s.log, earlier ≤ now) → ∀ id,
    s.state.deliveries.live now id = none → t.state.deliveries.live now id = none
  live : ∀ now, (∀ earlier ∈ readings s.log, earlier ≤ now) → ∀ id sent,
    s.state.deliveries.live now id = some sent → t.state.deliveries.live now id = some sent ∨
      ∃ d ∈ s.log, d.1.now = sent ∧ ∃ other, other ≠ provider ∧
        Identified crates s.state.secrets d.1 other id

theorem check_live {guard : DeliveryGuard} (hkeys : (guard.seen.map (·.1)).Nodup) {id : String}
    (hkept : DeliveryGuard.identifies id) (now : ℕ) : (guard.check (some id) now).1 =
      if (guard.live now id).isSome then .duplicate else .fresh := by
  rcases guard.check_cases (some id) now with ⟨k, hid, -, hc⟩ | ⟨hnone, -⟩
  · cases hid
    rw [hc, Recency.Window.touch_repeats hkeys]
  · exact absurd hkept (hnone id rfl)

/-- The guard is asked for every request that is verified. -/
theorem webhook_checked {state : ServerState} {provider : Provider} {verified : Verified}
    (h : Verifies crates state r provider verified) : (webhook crates state r).1.checked =
      some (state.deliveries.check r.deliveryId r.now).1 := by
  unfold webhook
  simp only [h.path, h.verify, ← h.deliveryId]
  split_ifs with hdup
  · rw [hdup]
  · cases Webhook.parse crates.fromSlice provider (Headers.ofMap r.headers) r.body verified <;> rfl

variable {provider : Provider}

/-- Where no id is shared, what is asked for the provider is remembered alike. -/
theorem Shadows.agree (h : Shadows crates provider s t) (hapart : Unshared crates s r) {id : String}
    (hnamed : Identified crates s.state.secrets r provider id)
    (hlater : ∀ earlier ∈ readings s.log, earlier ≤ r.now) :
    t.state.deliveries.live r.now id = s.state.deliveries.live r.now id := by
  cases hlive : s.state.deliveries.live r.now id with
  | none => exact h.dead r.now hlater id hlive
  | some sent =>
    rcases h.live r.now hlater id sent hlive with hsame | ⟨d, hd, rfl, other, hother, hsent⟩
    · exact hsame
    · have hage := (Recency.Window.live_eq_some.1 hlive).2
      exact absurd (hapart provider id hnamed d hd other hsent hage) hother

/-- A request for the provider is answered by both servers alike. -/
theorem Shadows.answer (h : Shadows crates provider s t) (hapart : Unshared crates s r)
    (hfor : isFor provider r) (hlater : ∀ now,
      Exchange.reading (r, (webhook crates s.state r).1) = some now →
        ∀ earlier ∈ readings s.log, earlier ≤ now) :
    (webhook crates t.state r).1 = (webhook crates s.state r).1 := by
  rw [h.state]
  refine webhook_guard _ fun other verified hv => ?_
  obtain rfl : other = provider := Option.some.inj (hv.path.symm.trans (by simpa [isFor] using hfor))
  rcases s.state.deliveries.check_cases r.deliveryId r.now with ⟨k, hid, hkept, -⟩ | ⟨hnone, hc⟩
  · have hchecked := webhook_checked hv
    have hread : Exchange.reading (r, (webhook crates s.state r).1) = some r.now := by
      rw [hid, check_live h.known.keys hkept] at hchecked
      unfold Exchange.reading
      rw [hchecked]
      split_ifs <;> simp_all
    rw [hid, check_live h.known.keys hkept, check_live h.known'.keys hkept,
      h.agree hapart (hv.identified hid hkept) (hlater _ hread)]
  · rcases t.state.deliveries.check_cases r.deliveryId r.now with ⟨k, hid, hkept, -⟩ | ⟨-, hc'⟩
    · exact absurd hkept (hnone k hid)
    · rw [hc, hc']

/-- The server after one more request. -/
def Served.next (crates : Crates) (s : Served) (r : WebhookRequest) : Served :=
  ⟨(webhook crates s.state r).2, s.log ++ [(r, (webhook crates s.state r).1)]⟩

theorem serve_eq (crates : Crates) (s : Served) (r : WebhookRequest) :
    serve crates s r = some (s.next crates r) := rfl

theorem Shadows.room (h : Shadows crates provider s t) (hroomy : Roomy s) :
    s.state.deliveries.seen.length < s.state.deliveries.capacity ∧
      t.state.deliveries.seen.length < t.state.deliveries.capacity := by
  refine ⟨h.known.length_le.trans_lt hroomy.2, ?_⟩
  rw [h.capacity]
  refine lt_of_le_of_lt (h.known'.length_le.trans (Finset.card_le_card fun k hk => ?_)) hroomy.2
  rw [h.log] at hk
  obtain ⟨e, he, hid⟩ := List.mem_filterMap.1 (List.mem_toFinset.1 hk)
  exact List.mem_toFinset.2 (List.mem_filterMap.2 ⟨e, (List.mem_filter.1 he).1, hid⟩)

theorem readings_le {log : List Exchange} {e : Exchange} {asked now : ℕ}
    (hread : e.reading = some asked) (hnow : ∀ earlier ∈ readings (log ++ [e]), earlier ≤ now) :
    (∀ earlier ∈ readings log, earlier ≤ now) ∧ asked ≤ now := by
  rw [readings_concat, hread] at hnow
  exact ⟨fun earlier he => hnow earlier (by simp [he]), hnow asked (by simp)⟩

/-- A question that the server is asked alone. -/
theorem Shadows.asked_other (h : Shadows crates provider s t) (hroomy : Roomy s)
    (hlater : ∀ earlier ∈ readings s.log, earlier ≤ r.now) {other : Provider}
    (hother : other ≠ provider) (hfor : ¬isFor provider r) {id : String}
    (hnamed : Identified crates s.state.secrets r other id) {handled : Handled}
    (hread : Exchange.reading (r, handled) = some r.now)
    (hknown : Known crates ⟨{ s.state with
      deliveries := (s.state.deliveries.touch r.now id).2 }, s.log ++ [(r, handled)]⟩) :
    Shadows crates provider ⟨{ s.state with
      deliveries := (s.state.deliveries.touch r.now id).2 }, s.log ++ [(r, handled)]⟩ t := by
  refine ⟨?_, h.state, ?_, ?_, hknown, h.known', fun now hnow id' hdead => ?_,
    fun now hnow id' sent hlive => ?_⟩
  · rw [h.log, List.filter_append, List.filter_cons_of_neg (by simpa using hfor)]
    simp
  · simpa using h.ttl
  · simpa using h.capacity
  · obtain ⟨hold, hle⟩ := readings_le hread hnow
    rw [Recency.Window.touch_live h.known.keys (h.room hroomy).1 hle] at hdead
    split_ifs at hdead with hnew
    · -- the id was dead when it was asked for, also to the other server
      obtain ⟨rfl, hnone⟩ := hnew
      have hnone' := h.dead r.now hlater id' hnone
      cases hlive : t.state.deliveries.live now id' with
      | none => rfl
      | some sent =>
        rw [Recency.Window.live_earlier hlive hle] at hnone'
        cases hnone'
    · exact h.dead now hold id' hdead
  · obtain ⟨hold, hle⟩ := readings_le hread hnow
    rw [Recency.Window.touch_live h.known.keys (h.room hroomy).1 hle] at hlive
    split_ifs at hlive with hnew hage
    · obtain ⟨rfl, -⟩ := hnew
      exact .inr ⟨(r, handled), by simp, Option.some.inj hlive, other, hother, hnamed⟩
    · refine (h.live now hold id' sent hlive).imp_right ?_
      rintro ⟨d, hd, hsent⟩
      exact ⟨d, List.mem_append_left _ hd, hsent⟩

/-- A question that both servers are asked. -/
theorem Shadows.asked_both (h : Shadows crates provider s t) (hapart : Unshared crates s r)
    (hroomy : Roomy s) (hlater : ∀ earlier ∈ readings s.log, earlier ≤ r.now)
    (hfor : isFor provider r) {id : String}
    (hnamed : Identified crates s.state.secrets r provider id) {handled : Handled}
    (hread : Exchange.reading (r, handled) = some r.now)
    (hknown : Known crates ⟨{ s.state with
      deliveries := (s.state.deliveries.touch r.now id).2 }, s.log ++ [(r, handled)]⟩)
    (hknown' : Known crates ⟨{ t.state with
      deliveries := (t.state.deliveries.touch r.now id).2 }, t.log ++ [(r, handled)]⟩) :
    Shadows crates provider
      ⟨{ s.state with deliveries := (s.state.deliveries.touch r.now id).2 },
        s.log ++ [(r, handled)]⟩
      ⟨{ t.state with deliveries := (t.state.deliveries.touch r.now id).2 },
        t.log ++ [(r, handled)]⟩ := by
  have hsame : ∀ now, r.now ≤ now → ∀ id',
      (t.state.deliveries.touch r.now id).2.live now id' =
        if id' = id ∧ s.state.deliveries.live r.now id = none then
          if now - r.now < s.state.deliveries.ttl then some r.now else none
        else t.state.deliveries.live now id' := by
    intro now hle id'
    rw [Recency.Window.touch_live h.known'.keys (h.room hroomy).2 hle,
      h.agree hapart hnamed hlater, h.ttl]
  refine ⟨?_, ?_, ?_, ?_, hknown, hknown', fun now hnow id' hdead => ?_,
    fun now hnow id' sent hlive => ?_⟩
  · rw [h.log, List.filter_append, List.filter_cons_of_pos (by simpa using hfor)]
    rfl
  · rw [h.state]
  · simpa using h.ttl
  · simpa using h.capacity
  · obtain ⟨hold, hle⟩ := readings_le hread hnow
    rw [Recency.Window.touch_live h.known.keys (h.room hroomy).1 hle] at hdead
    rw [hsame now hle]
    split_ifs at hdead ⊢
    · rfl
    · exact h.dead now hold id' hdead
  · obtain ⟨hold, hle⟩ := readings_le hread hnow
    rw [Recency.Window.touch_live h.known.keys (h.room hroomy).1 hle] at hlive
    rw [hsame now hle]
    split_ifs at hlive ⊢
    · exact .inl hlive
    · refine (h.live now hold id' sent hlive).imp_right ?_
      rintro ⟨d, hd, hsent⟩
      exact ⟨d, List.mem_append_left _ hd, hsent⟩

/-- A request that the guard is asked nothing for. -/
theorem Shadows.unread (h : Shadows crates provider s t) {e : Exchange} (hread : e.reading = none)
    {log : List Exchange} (hlog : log = (s.log ++ [e]).filter fun e => isFor provider e.1)
    (hknown : Known crates ⟨s.state, s.log ++ [e]⟩) (hknown' : Known crates ⟨t.state, log⟩) :
    Shadows crates provider ⟨s.state, s.log ++ [e]⟩ ⟨t.state, log⟩ := by
  have hsame : readings (s.log ++ [e]) = readings s.log := by simp [readings_concat, hread]
  refine ⟨hlog, h.state, h.ttl, h.capacity, hknown, hknown', fun now hnow => ?_,
    fun now hnow id sent hlive => ?_⟩
  · exact h.dead now (hsame ▸ hnow)
  · refine (h.live now (hsame ▸ hnow) id sent hlive).imp_right ?_
    rintro ⟨d, hd, hsent⟩
    exact ⟨d, List.mem_append_left _ hd, hsent⟩

theorem next_question (crates : Crates) (s : Served) (r : WebhookRequest) :
    (Exchange.reading (r, (webhook crates s.state r).1) = none ∧
        (webhook crates s.state r).2 = s.state) ∨
      ∃ provider id, Identified crates s.state.secrets r provider id ∧
        Exchange.reading (r, (webhook crates s.state r).1) = some r.now ∧
        (webhook crates s.state r).2
          = { s.state with deliveries := (s.state.deliveries.touch r.now id).2 } :=
  (webhook_outcome rfl).question

theorem next_before (h : Roomy (s.next crates r)) : Roomy s ∧ ∀ now,
    Exchange.reading (r, (webhook crates s.state r).1) = some now →
      ∀ earlier ∈ readings s.log, earlier ≤ now := by
  refine Roomy.before ?_ h
  rcases next_question crates s r with ⟨-, hstate⟩ | ⟨other, id, -, -, hstate⟩
  · rw [hstate]
  · rw [hstate]
    exact Recency.Window.touch_capacity _ _ _

/-- A request for another provider. -/
theorem shadows_drop (h : Shadows crates provider s t) (hfor : ¬isFor provider r)
    (hroomy : Roomy (s.next crates r)) : Shadows crates provider (s.next crates r) t := by
  obtain ⟨hroom, hlater⟩ := next_before hroomy
  have hknown : Known crates (s.next crates r) := known_step h.known (serve_eq crates s r)
  unfold Served.next at hknown ⊢
  rcases next_question crates s r with ⟨hread, hstate⟩ | ⟨other, id, hnamed, hread, hstate⟩
  · rw [hstate] at hknown ⊢
    refine h.unread hread ?_ hknown h.known'
    rw [h.log, List.filter_append, List.filter_cons_of_neg (by simpa using hfor)]
    simp
  · rw [hstate] at hknown ⊢
    have hother : other ≠ provider := by
      rintro rfl
      exact hfor (by simpa [isFor] using hnamed.path)
    exact h.asked_other hroom (hlater _ hread) hother hfor hnamed hread hknown

/-- A request for the provider. -/
theorem shadows_keep (h : Shadows crates provider s t) (hapart : Unshared crates s r)
    (hfor : isFor provider r) (hroomy : Roomy (s.next crates r)) :
    Shadows crates provider (s.next crates r) (t.next crates r) := by
  obtain ⟨hroom, hlater⟩ := next_before hroomy
  have hknown : Known crates (s.next crates r) := known_step h.known (serve_eq crates s r)
  have hknown' : Known crates (t.next crates r) := known_step h.known' (serve_eq crates t r)
  have hanswer := h.answer hapart hfor hlater
  have hquestion := next_question crates t r
  rw [hanswer] at hquestion
  unfold Served.next at hknown hknown' ⊢
  rw [hanswer] at hknown' ⊢
  rcases next_question crates s r with ⟨hread, hstate⟩ | ⟨other, id, hnamed, hread, hstate⟩
  · rcases hquestion with ⟨-, hstate'⟩ | ⟨-, -, -, hread', -⟩
    · rw [hstate] at hknown ⊢
      rw [hstate'] at hknown' ⊢
      refine h.unread hread ?_ hknown hknown'
      rw [h.log, List.filter_append, List.filter_cons_of_pos (by simpa using hfor)]
      rfl
    · rw [hread] at hread'
      cases hread'
  · obtain rfl : other = provider :=
      Option.some.inj (hnamed.path.symm.trans (by simpa [isFor] using hfor))
    rcases hquestion with ⟨hread', -⟩ | ⟨other', id', hnamed', -, hstate'⟩
    · rw [hread] at hread'
      cases hread'
    · obtain rfl : id' = id :=
        Option.some.inj (hnamed'.deliveryId.symm.trans hnamed.deliveryId)
      rw [hstate] at hknown ⊢
      rw [hstate'] at hknown' ⊢
      exact h.asked_both hapart hroom (hlater _ hread) hfor hnamed hread hknown hknown'

end Alone

section Separate

variable {crates : Crates} {state : ServerState} {ttl capacity : ℕ}

theorem known_start (hstate : state.deliveries = DeliveryGuard.new ttl capacity) :
    Known crates ⟨state, []⟩ := by
  refine ⟨?_, ?_, fun e he => ?_⟩
  · rw [hstate]
    exact Nat.lt_of_lt_of_le Nat.one_pos (le_max_right _ _)
  · rw [hstate]
    exact List.nodup_nil
  · rw [hstate] at he
    cases he

theorem shadows_start (hstate : state.deliveries = DeliveryGuard.new ttl capacity)
    (provider : Provider) : Shadows crates provider ⟨state, []⟩ ⟨state, []⟩ where
  log := rfl
  state := rfl
  ttl := rfl
  capacity := rfl
  known := known_start hstate
  known' := known_start hstate
  dead _ _ _ h := h
  live _ _ _ _ h := .inl h

theorem shadows_kept {provider : Provider} {s t s' : Served} {r : WebhookRequest}
    (h : Roomy s → Shadows crates provider s t) (hapart : Unshared crates s r)
    (hfor : isFor provider r) (hs : serve crates s r = some s') :
    ∃ t', serve crates t r = some t' ∧ (Roomy s' → Shadows crates provider s' t') := by
  obtain rfl : s.next crates r = s' := Option.some.inj hs
  exact ⟨t.next crates r, serve_eq crates t r,
    fun hroomy => shadows_keep (h (next_before hroomy).1) hapart hfor hroomy⟩

theorem shadows_dropped {provider : Provider} {s t s' : Served} {r : WebhookRequest}
    (h : Roomy s → Shadows crates provider s t) (_ : Unshared crates s r)
    (hfor : ¬isFor provider r) (hs : serve crates s r = some s') (hroomy : Roomy s') :
    Shadows crates provider s' t := by
  obtain rfl : s.next crates r = s' := Option.some.inj hs
  exact shadows_drop (h (next_before hroomy).1) hfor hroomy

/-- A repeat is one of a request for its own provider. -/
theorem own_step (s : Served) (r : WebhookRequest) (s' : Served)
    (hs : Known crates s ∧ OwnRepeats s.log) (hapart : Unshared crates s r)
    (h : serve crates s r = some s') : Known crates s' ∧ OwnRepeats s'.log := by
  refine ⟨known_step hs.1 h, ?_⟩
  obtain ⟨handled, state', hout, rfl⟩ := serve_outcome h
  refine Runs.throughout_concat.2 ⟨hs.2, fun hdup => ?_⟩
  obtain ⟨provider, id, sent, hnamed, hlive⟩ := duplicate_live hs.1 hout hdup
  obtain ⟨d, hd, rfl, hage, other, hsent⟩ := hs.1.live hlive
  obtain rfl := hapart provider id hnamed d hd other hsent hage
  exact ⟨other, id, by simpa [isFor] using hnamed.path, hnamed.deliveryId, d, hd,
    by simpa [isFor] using hsent.path, hsent.deliveryId⟩

/-- In every run in which no id is shared, each provider's repeats are its own; and while the clock
goes forward and there is room for all ids, it is answered as if it were alone. -/
theorem providers_apart (hstate : state.deliveries = DeliveryGuard.new ttl capacity)
    {requests : List WebhookRequest} {s : Served}
    (hapart : Runs.AllSteps (serve crates) (Unshared crates) ⟨state, []⟩ requests)
    (h : Runs.exec (serve crates) ⟨state, []⟩ requests = some s) :
    OwnRepeats s.log ∧ (Roomy s → Separate crates state requests s.log) := by
  refine ⟨?_, fun hroomy provider => ?_⟩
  · exact (Runs.exec_keeps own_step ⟨known_start hstate, Runs.throughout_nil _⟩ hapart h).2
  · obtain ⟨t, ht, hshadows⟩ := Purge.exec_filter (isFor provider)
      (fun s t => Roomy s → Shadows crates provider s t) shadows_kept shadows_dropped
      (fun _ => shadows_start hstate provider) hapart h
    exact ⟨t, ht, (hshadows hroomy).log⟩

/-- A push of the sample repository, as GitHub sends it. -/
def gitHubBody : List UInt8 :=
  Utf8.encode "\x7b\"ref\":\"refs/heads/main\",\"repository\":\x7b\"full_name\":\"acme/web\"\x7d\x7d"

def gitHubJson : Json :=
  .object [("ref", .string "refs/heads/main"),
    ("repository", .object [("full_name", .string "acme/web")])]

/-- The HMAC-SHA256 of that body under the key of the samples. -/
def gitHubMac : List UInt8 :=
  [8, 141, 196, 165, 81, 242, 33, 124, 150, 101, 46, 29, 101, 19, 214, 69, 189, 237, 179, 11,
    123, 135, 50, 127, 164, 152, 146, 58, 104, 240, 146, 141]

def twoCrates : Crates where
  hmac := ⟨fun _ _ => gitHubMac, fun _ _ => rfl⟩
  fromSlice body :=
    if body = gitHubBody then .ok gitHubJson else sampleCrates.fromSlice body

def twoServer : ServerState :=
  { sampleServer with secrets := fun provider =>
      if provider = .gitHub then some "key" else sampleServer.secrets provider }

def gitHubDelivery (id : String) (now : ℕ) : WebhookRequest where
  provider := "github"
  headers := [("x-hub-signature-256", some
      "sha256=088dc4a551f2217c96652e1d6513d645bdedb30b7b87327fa498923a68f0928d"),
    ("x-github-event", some "push"), ("x-github-delivery", some id)]
  body := gitHubBody
  now := now
  stored := .ok "run"

theorem reading_fresh {r : WebhookRequest} {handled : Handled}
    (h : handled.checked = some .fresh) : Exchange.reading (r, handled) = some r.now := by
  unfold Exchange.reading
  rw [if_pos (.inl h)]

/-- GitLab's push is new. -/
theorem gitLab_first : (webhook twoCrates twoServer (sampleDelivery pushBody 0)).1.checked
    = some .fresh := by decide +kernel

theorem apart_pushes : ∃ s, Runs.exec (serve twoCrates) ⟨twoServer, []⟩
    [sampleDelivery pushBody 0, gitHubDelivery "d2" 1] = some s ∧
      s.log.map (·.2.checked) = [some .fresh, some .fresh] ∧ OwnRepeats s.log ∧
      Separate twoCrates twoServer [sampleDelivery pushBody 0, gitHubDelivery "d2" 1] s.log := by
  have hsecond : (webhook twoCrates (webhook twoCrates twoServer (sampleDelivery pushBody 0)).2
      (gitHubDelivery "d2" 1)).1.checked = some .fresh := by decide +kernel
  have hids : (sampleDelivery pushBody 0).deliveryId = some "d1" ∧
      (gitHubDelivery "d2" 1).deliveryId = some "d2" := by decide +kernel
  have hapart : Runs.AllSteps (serve twoCrates) (Unshared twoCrates) ⟨twoServer, []⟩
      [sampleDelivery pushBody 0, gitHubDelivery "d2" 1] := by
    refine ⟨fun _ _ _ d hd => absurd hd List.not_mem_nil, fun s hs => ⟨?_, fun _ _ => trivial⟩⟩
    obtain rfl := Option.some.inj hs
    intro provider id hnamed d hd other hsent
    obtain rfl := List.mem_singleton.1 hd
    have hsame := hnamed.deliveryId.trans hsent.deliveryId.symm
    rw [hids.1, hids.2] at hsame
    exact absurd hsame (by decide)
  obtain ⟨hown, hseparate⟩ := providers_apart rfl hapart (serve_two _ _ _ _)
  refine ⟨_, serve_two _ _ _ _, ?_, hown, hseparate ⟨?_, ?_⟩⟩
  · simp only [List.map_cons, List.map_nil, gitLab_first]
    rw [hsecond]
  · unfold readings
    rw [List.filterMap_cons_some (reading_fresh gitLab_first),
      List.filterMap_cons_some (reading_fresh hsecond)]
    decide
  · simp only [ids, List.filterMap_cons, hids.1, hids.2]
    decide +kernel

/-- GitLab has sent a delivery of its own under the id that GitHub then uses. -/
theorem gitHub_suppressed : ∃ s, Runs.exec (serve twoCrates) ⟨twoServer, []⟩
    [sampleDelivery pushBody 0, gitHubDelivery "d1" 1] = some s ∧
      s.log.map (·.2.checked) = [some .fresh, some .duplicate] ∧ ¬OwnRepeats s.log ∧
      ¬Separate twoCrates twoServer [sampleDelivery pushBody 0, gitHubDelivery "d1" 1] s.log := by
  have hsecond : (webhook twoCrates (webhook twoCrates twoServer (sampleDelivery pushBody 0)).2
      (gitHubDelivery "d1" 1)).1 = ⟨Ack.ignored "duplicate delivery", some .duplicate, none⟩ := by
    decide +kernel
  have halone : (webhook twoCrates twoServer (gitHubDelivery "d1" 1)).1.checked
      = some .fresh := by decide +kernel
  refine ⟨_, serve_two _ _ _ _, ?_, fun hown => ?_, fun hseparate => ?_⟩
  · simp only [List.map_cons, List.map_nil, gitLab_first]
    rw [hsecond]
  · have hrepeat := congrArg Handled.response hsecond
    obtain ⟨provider, id, hfor, -, d, hd, hsame, -⟩ := hown [_] _ [] rfl hrepeat
    obtain rfl := List.mem_singleton.1 hd
    cases provider with
    | gitHub => exact absurd hsame (by decide)
    | gitLab => exact absurd hfor (by decide)
    | bitbucket => exact absurd hfor (by decide)
  · obtain ⟨alone, hrun, hlog⟩ := hseparate .gitHub
    obtain rfl : Served.next twoCrates ⟨twoServer, []⟩ (gitHubDelivery "d1" 1) = alone :=
      Option.some.inj hrun
    have hchecked := congrArg (fun log : List Exchange => log.map (·.2.checked)) hlog
    rw [hsecond] at hchecked
    have hsame : [(webhook twoCrates twoServer (gitHubDelivery "d1" 1)).1.checked]
        = [some .duplicate] := hchecked
    rw [halone] at hsame
    cases hsame

end Separate

end Jetrun
