import Jetrun.Concurrent
import Jetrun.Lib.Skew
import Jetrun.Proofs.Http

/-!
# Webhook requests side by side

A handler is its three parts one after the other, so a server under load does what `serve` does with
the same requests in the order in which they take the lock. Two handlers for one delivery, started
at the same time, are then one after the other; but the second may have read the clock first, so the
guard is asked with readings that do not grow.
-/

namespace Jetrun

namespace Busy

open Locking

variable {crates : Crates} {state : ServerState}

section Linearized

variable (crates state) in
/-- A request that is handled alone, by the parts of its handler. -/
theorem webhook_eq_alone (g : DeliveryGuard) (r : WebhookRequest) (now : ℕ) :
    webhook crates { state with deliveries := g } { r with now } =
      (((Concurrent.handler crates state).alone g (r, now)).1,
        { state with deliveries := ((Concurrent.handler crates state).alone g (r, now)).2 }) := by
  have hdispatch (event : TriggerEvent) (deliveries : DeliveryGuard) :
      dispatch { state with deliveries } event r.stored = dispatch state event r.stored := rfl
  unfold webhook Handler.alone Concurrent.handler Concurrent.untilGuard
  rcases hpath : Provider.ofPath r.provider with _ | provider
  · simp [hpath]
  rcases hverify : verify crates.hmac provider (Headers.ofMap r.headers) r.body
      ((state.webhookSecret provider).map Utf8.encode) with e | verified
  · simp_all [ServerState.webhookSecret]
  rcases hcheck : g.check ((Headers.ofMap r.headers).get provider.deliveryHeader) now
    with ⟨delivery, g'⟩
  rcases hparse : Webhook.parse crates.fromSlice provider (Headers.ofMap r.headers) r.body verified
    with e | event <;> by_cases hdup : delivery = .duplicate <;>
      simp_all [ServerState.webhookSecret, Concurrent.guarded, Concurrent.settle]

variable (crates state) in
theorem run_eq_alone (g : DeliveryGuard) : ∀ rs : List (WebhookRequest × ℕ),
    Purge.run (webhook crates) { state with deliveries := g }
        (rs.map fun r => { r.1 with now := r.2 }) =
      ((Purge.run (Concurrent.handler crates state).alone g rs).1.map
          fun e => ({ e.1.1 with now := e.1.2 }, e.2),
        { state with deliveries := (Purge.run (Concurrent.handler crates state).alone g rs).2 })
  | [] => rfl
  | r :: rs => by
    simp only [List.map_cons, Purge.run, webhook_eq_alone]
    rw [run_eq_alone _ rs]

/-- However requests are interleaved, they could have been handled one after the other. -/
theorem requests_linearize {moves : List (Move WebhookRequest)} {s : Busy}
    (h : Runs.exec (step crates state) (new state) moves = some s) :
    Linearized crates state moves s := by
  have hx := explained h
  refine ⟨?_, hx.once, fun k r handled hk => ?_, ?_⟩
  · have hstamped : s.effects.map stamped =
        s.inOrder.map fun r => { r.1 with now := r.2 } := by
      simp only [Server.inOrder, List.map_map]
      rfl
    have hrun := run_eq_alone crates state state.deliveries s.inOrder
    rw [hx.replay] at hrun
    rw [exec_serve, hstamped, hrun]
    simp only [List.map_map, List.nil_append]
    rfl
  · obtain ⟨e, he, hek, hanswer⟩ := hx.accounted k r _ hk
    obtain ⟨stage, hstage⟩ := hx.owner e he
    rw [hek, hk] at hstage
    exact ⟨e, he, hek, (congrArg Prod.fst (Option.some.inj hstage)).symm, hanswer⟩
  · rintro before after mid rfl hmid e he l₁ f l₂ hf hdone hlate
    exact answered_first hmid h he hdone hlate hf

/-- A delivery and its copy race: the copy reads the clock first and takes the lock last. -/
def raceMoves : List (Move WebhookRequest) :=
  [.arrive (sampleDelivery pushBody 0), .arrive (sampleDelivery pushBody 0), .start 1, .tick 5,
    .start 0, .lock 0, .lock 1, .finish 1, .finish 0]

def summary (s : Busy) : List (ℕ × ℕ × Bool) :=
  s.effects.map fun e => (e.handler, e.reading, e.answer.enqueued.isSome)

theorem race_linearizes : ∃ s, Runs.exec (step sampleCrates sampleServer) (new sampleServer)
    raceMoves = some s ∧ summary s = [(0, 5, true), (1, 0, false)] ∧
      Linearized sampleCrates sampleServer raceMoves s := by
  have hrun : (Runs.exec (step sampleCrates sampleServer) (new sampleServer) raceMoves).map summary
      = some [(0, 5, true), (1, 0, false)] := by decide +kernel
  obtain ⟨s, hs, hsummary⟩ := Option.map_eq_some_iff.1 hrun
  exact ⟨s, hs, hsummary, requests_linearize hs⟩

end Linearized

section Once

/-- What the guard was asked for a request, if it was. -/
def askOf (e : Effect WebhookRequest Handled) : Option (Recency.Ask String) :=
  match e.answer.checked, e.request.deliveryId with
  | some .fresh, some id => some ⟨id, e.reading, e.time, false⟩
  | some .duplicate, some id => some ⟨id, e.reading, e.time, true⟩
  | _, _ => none

section Alone

variable {g g' : DeliveryGuard} {e : Effect WebhookRequest Handled}

theorem alone_outcome
    (h : (Concurrent.handler crates state).alone g (e.request, e.reading) = (e.answer, g')) :
    Outcome crates { state with deliveries := g } (stamped e) e.answer
      { state with deliveries := g' } := by
  have hone := webhook_eq_alone crates state g e.request e.reading
  rw [h] at hone
  exact webhook_outcome hone

/-- The guard is asked once for a request, or not at all. -/
theorem alone_checked
    (h : (Concurrent.handler crates state).alone g (e.request, e.reading) = (e.answer, g')) :
    (e.answer.checked = none ∧ g' = g) ∨
      e.answer.checked = some (g.check e.request.deliveryId e.reading).1 ∧
        g' = (g.check e.request.deliveryId e.reading).2 :=
  (alone_outcome h).after.imp (And.imp_right (congrArg ServerState.deliveries))
    (And.imp_right (congrArg ServerState.deliveries))

/-- What the guard was asked for a request is a call of the window. -/
theorem alone_asks
    (h : (Concurrent.handler crates state).alone g (e.request, e.reading) = (e.answer, g')) :
    (askOf e = none ∧ g' = g) ∨ ∃ c, askOf e = some c ∧ c.reading = e.reading ∧
      (g.touch c.reading c.key).1 = c.repeated ∧ g' = (g.touch c.reading c.key).2 := by
  rcases alone_checked h with ⟨hchecked, rfl⟩ | ⟨hchecked, rfl⟩
  · exact .inl ⟨by simp [askOf, hchecked], rfl⟩
  rcases g.check_cases e.request.deliveryId e.reading with ⟨k, hk, -, hcheck⟩ | ⟨-, hcheck⟩ <;>
    rw [hcheck] at hchecked ⊢
  · refine .inr ⟨⟨k, e.reading, e.time, (g.touch e.reading k).1⟩, ?_, rfl, rfl, rfl⟩
    rcases hrepeat : (g.touch e.reading k).1 <;> rw [hrepeat] at hchecked <;>
      simp [askOf, hchecked, hk]
  · exact .inl ⟨by simp [askOf, hchecked], rfl⟩

/-- What reaches the queue was let through, if it has an id to ask about. -/
theorem ask_of_enqueued
    (h : (Concurrent.handler crates state).alone g (e.request, e.reading) = (e.answer, g'))
    {id : String} (hid : e.request.deliveryId = some id) (hkeeps : DeliveryGuard.identifies id)
    (hq : e.answer.enqueued.isSome) : askOf e = some ⟨id, e.reading, e.time, false⟩ := by
  have hadmitted := outcome_admitted (alone_outcome h) hq
  have hsome : e.answer.checked.isSome := hadmitted.checked
  have hnot : e.answer.checked ≠ some .duplicate := hadmitted.let_through
  rcases alone_checked h with ⟨hchecked, -⟩ | ⟨hchecked, -⟩
  · simp [hchecked] at hsome
  rcases g.check_cases e.request.deliveryId e.reading with ⟨k, -, -, hcheck⟩ | ⟨hnone, -⟩
  · rw [hcheck] at hchecked
    rcases hrepeat : (g.touch e.reading k).1 <;> rw [hrepeat] at hchecked
    · simp [askOf, hchecked, hid]
    · exact absurd hchecked hnot
  · exact absurd hkeeps (hnone id hid)

end Alone

/-- The guard is the window after what it was asked. -/
theorem asked_of_replay {g₀ : DeliveryGuard} : ∀ {effects : List (Effect WebhookRequest Handled)}
    {g : DeliveryGuard}, Purge.run (Concurrent.handler crates state).alone g₀
      (effects.map fun e => (e.request, e.reading)) =
        (effects.map fun e => ((e.request, e.reading), e.answer), g) →
    Recency.Asked g₀ g (effects.filterMap askOf) := by
  intro effects
  induction effects using List.reverseRecOn with
  | nil =>
    rintro g ⟨⟩
    exact .nil
  | append_singleton effects e ih =>
    intro g h
    rw [List.map_append, Purge.run_append, List.map_append, Prod.mk.injEq] at h
    obtain ⟨hanswers, hlast⟩ := h
    obtain ⟨hold, hnew⟩ := List.append_inj' hanswers rfl
    have hasked := ih (Prod.ext hold rfl)
    simp only [List.map_cons, List.map_nil, Purge.run, List.cons.injEq, Prod.mk.injEq, and_true,
      true_and] at hnew hlast
    rw [List.filterMap_append]
    rcases alone_asks (Prod.ext hnew hlast) with ⟨hnone, rfl⟩ | ⟨c, hsome, hread, hrepeat, rfl⟩
    · simpa [hnone] using hasked
    · simpa [hsome] using hasked.ask hrepeat

theorem askOf_reading {e : Effect WebhookRequest Handled} {c : Recency.Ask String}
    (h : askOf e = some c) : c.reading = e.reading ∧ c.time = e.time ∧
      e.request.deliveryId = some c.key ∧
        e.answer.checked = some (if c.repeated then .duplicate else .fresh) := by
  unfold askOf at h
  split at h
  · cases h
    exact ⟨rfl, rfl, ‹_›, ‹_›⟩
  · cases h
    exact ⟨rfl, rfl, ‹_›, ‹_›⟩
  · cases h

theorem timely_asks {effects : List (Effect WebhookRequest Handled)}
    (hread : ∀ e ∈ effects, e.reading ≤ e.time)
    (horder : effects.Pairwise fun e f => e.time ≤ f.time) :
    Recency.Timely (effects.filterMap askOf) := by
  constructor
  · intro c hc
    obtain ⟨e, he, hask⟩ := List.mem_filterMap.1 hc
    obtain ⟨hr, ht, -⟩ := askOf_reading hask
    rw [hr, ht]
    exact hread e he
  · refine List.pairwise_filterMap.2 (horder.imp fun {e f} hle c hc d hd => ?_)
    rw [(askOf_reading hc).2.1, (askOf_reading hd).2.1]
    exact hle

theorem throughFrom_asks (effects : List (Effect WebhookRequest Handled)) (t : ℕ) :
    Recency.throughFrom (effects.filterMap askOf) t = throughFrom effects t := by
  ext id
  simp only [Recency.mem_throughFrom, throughFrom, List.mem_toFinset, List.mem_filterMap]
  constructor
  · rintro ⟨c, ⟨e, he, hask⟩, hnew, ht, rfl⟩
    obtain ⟨-, htime, hid, hchecked⟩ := askOf_reading hask
    rw [hnew] at hchecked
    exact ⟨e, he, by rw [if_pos ⟨hchecked, htime ▸ ht⟩, hid]⟩
  · rintro ⟨e, he, hif⟩
    split_ifs at hif with hfresh
    exact ⟨⟨id, e.reading, e.time, false⟩, ⟨e, he, by simp [askOf, hfresh.1, hif]⟩, rfl,
      hfresh.2, rfl⟩

/-- Any one request of a run, handled alone where the run has come to. -/
theorem alone_of_replay {g₀ g : DeliveryGuard} {l₁ l₂ : List (Effect WebhookRequest Handled)}
    {e : Effect WebhookRequest Handled}
    (h : Purge.run (Concurrent.handler crates state).alone g₀
      ((l₁ ++ e :: l₂).map fun e => (e.request, e.reading)) =
        ((l₁ ++ e :: l₂).map fun e => ((e.request, e.reading), e.answer), g)) :
    ∃ g₁ g₂, (Concurrent.handler crates state).alone g₁ (e.request, e.reading)
      = (e.answer, g₂) := by
  rw [List.map_append, Purge.run_append, List.map_append, Prod.mk.injEq] at h
  obtain ⟨-, hrest⟩ := List.append_inj h.1 (by simp)
  simp only [List.map_cons, Purge.run, List.cons.injEq, Prod.mk.injEq, true_and] at hrest
  exact ⟨_, _, Prod.ext hrest.1 rfl⟩

/-- Only authentic deliveries reach the queue, and each once, however the handlers race. -/
theorem raced_once {ttl capacity : ℕ}
    (hstate : state.deliveries = DeliveryGuard.new ttl capacity)
    {moves : List (Move WebhookRequest)} {s : Busy}
    (h : Runs.exec (step crates state) (new state) moves = some s) :
    (∀ e ∈ s.effects, e.answer.enqueued.isSome → Authentic crates state.secrets e.request) ∧
      AtMostOnce ttl (max capacity 1) s.effects := by
  have hx := explained h
  have hreplay := hx.replay
  unfold Server.inOrder at hreplay
  constructor
  · intro e he hq
    obtain ⟨l₁, l₂, hsplit⟩ := List.append_of_mem he
    rw [hsplit] at hreplay
    obtain ⟨g₁, g₂, halone⟩ := alone_of_replay hreplay
    exact (outcome_admitted (alone_outcome halone) hq).authentic
  rintro before a between b after id hlog haid hbid hkeeps hage hfew ⟨haq, hbq⟩
  have hask : askOf a = some ⟨id, a.reading, a.time, false⟩ := by
    rw [hlog, List.append_assoc, List.cons_append] at hreplay
    obtain ⟨g₁, g₂, halone⟩ := alone_of_replay hreplay
    exact ask_of_enqueued halone haid hkeeps haq
  have hbsk : askOf b = some ⟨id, b.reading, b.time, false⟩ := by
    rw [hlog] at hreplay
    obtain ⟨g₁, g₂, halone⟩ := alone_of_replay hreplay
    exact ask_of_enqueued halone hbid hkeeps hbq
  have hasks : s.effects.filterMap askOf = before.filterMap askOf ++
      ⟨id, a.reading, a.time, false⟩ :: between.filterMap askOf ++
        [⟨id, b.reading, b.time, false⟩] ++ after.filterMap askOf := by
    simp [hlog, hask, hbsk]
  have htimely := timely_asks (fun e he => (hx.timely e he).1) hx.order
  have hasked := asked_of_replay hreplay
  rw [hasks] at htimely hasked
  obtain ⟨w, hasked⟩ := hasked.cut
  have hthrough := throughFrom_asks (before ++ a :: between) a.reading
  simp only [List.filterMap_append, List.filterMap_cons, hask] at hthrough
  have hpos : 0 < max capacity 1 := Nat.lt_of_lt_of_le Nat.one_pos (le_max_right _ _)
  have hrepeated := hasked.repeated_of_recent (by rw [hstate]; rfl) (by rw [hstate]; exact hpos)
    htimely.append_left rfl rfl (by rw [hstate]; exact hage)
    (by rw [hthrough, hstate]; exact hfew)
  cases hrepeated

theorem race_once : ∃ s, Runs.exec (step sampleCrates sampleServer) (new sampleServer)
    raceMoves = some s ∧ summary s = [(0, 5, true), (1, 0, false)] ∧
      (∀ e ∈ s.effects, e.answer.enqueued.isSome →
        Authentic sampleCrates sampleServer.secrets e.request) ∧
      AtMostOnce DeliveryGuard.defaultTtl (max DeliveryGuard.defaultCapacity 1) s.effects := by
  have hrun : (Runs.exec (step sampleCrates sampleServer) (new sampleServer) raceMoves).map summary
      = some [(0, 5, true), (1, 0, false)] := by decide +kernel
  obtain ⟨s, hs, hsummary⟩ := Option.map_eq_some_iff.1 hrun
  exact ⟨s, hs, hsummary, raced_once rfl hs⟩

end Once

end Busy

end Jetrun
