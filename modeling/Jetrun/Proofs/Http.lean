import Jetrun.Deliveries
import Jetrun.Proofs.Verify
import Mathlib.Data.Finset.Order

/-!
# Webhook deliveries are handled once, or retried in vain

Whether a delivery is a repeat is decided before its payload is read. So a delivery that fails
afterwards is refused, sent again by its provider, and then taken for a repeat; but none starts two
runs.
-/

namespace Jetrun

section Guard

namespace DeliveryGuard

/-- The guard is asked about an id it can keep, or says nothing and changes nothing. -/
theorem check_cases (g : DeliveryGuard) (id : Option String) (now : ℕ) :
    (∃ k, id = some k ∧ identifies k ∧ g.check id now =
        (if (g.touch now k).1 then .duplicate else .fresh, (g.touch now k).2)) ∨
      (∀ k, id = some k → ¬identifies k) ∧ g.check id now = (.unidentified, g) := by
  rcases id with _ | k
  · exact .inr ⟨by simp, rfl⟩
  by_cases hk : identifies k
  · refine .inl ⟨k, rfl, hk, ?_⟩
    unfold check
    simp only [hk, if_true]
    rcases g.touch now k with ⟨_ | _, g'⟩ <;> rfl
  · refine .inr ⟨fun k' hk' => ?_, ?_⟩
    · cases hk'
      exact hk
    · unfold check
      simp [hk]

theorem check_capacity (g : DeliveryGuard) (id : Option String) (now : ℕ) :
    (g.check id now).2.capacity = g.capacity := by
  rcases g.check_cases id now with ⟨k, -, -, h⟩ | ⟨-, h⟩ <;> rw [h]
  exact g.touch_capacity now k

/-- What the guard calls a repeat it remembers. -/
theorem check_duplicate {g : DeliveryGuard} {id : Option String} {now : ℕ}
    (h : (g.check id now).1 = .duplicate) : ∃ k t, id = some k ∧ (k, t) ∈ g.seen := by
  rcases g.check_cases id now with ⟨k, hid, -, hc⟩ | ⟨-, hc⟩
  · rw [hc] at h
    have hrepeat : (g.touch now k).1 = true := by
      by_contra hne
      simp [hne] at h
    obtain ⟨t, ht⟩ := g.touch_repeated now k hrepeat
    exact ⟨k, t, hid, ht⟩
  · rw [hc] at h
    cases h

/-- The guard only comes to remember what it lets through. -/
theorem check_seen {g : DeliveryGuard} (hpos : 0 < g.capacity) {id : Option String} {now : ℕ}
    {e : String × ℕ} (he : e ∈ (g.check id now).2.seen) :
    e ∈ g.seen ∨ (g.check id now).1 = .fresh ∧ id = some e.1 := by
  rcases g.check_cases id now with ⟨k, hid, -, hc⟩ | ⟨-, hc⟩
  · rw [hc] at he ⊢
    refine (g.touch_seen hpos now k e he).imp_right ?_
    rintro ⟨hnew, rfl⟩
    exact ⟨by simp [hnew], hid⟩
  · rw [hc] at he
    exact .inl he

end DeliveryGuard

end Guard

section Responses

theorem rejected_not_success (e : VerifyError) : (rejected e).isSuccess = false := by
  cases e <;> rfl

theorem refusal_not_success (e : WebhookError) : (refusal e).isSuccess = false := by
  cases e <;> rfl

theorem Ack.ignored_success (detail : String) : (Ack.ignored detail).isSuccess = true := rfl

theorem Ack.accepted_success (runId : String) : (Ack.accepted runId).isSuccess = true := rfl

theorem Ack.ignored_inj {a b : String} (h : Ack.ignored a = Ack.ignored b) : a = b := by
  unfold Ack.ignored at h
  simpa using h

theorem head_append {a : String} (ha : a.toList ≠ []) (b : String) :
    (a ++ b).toList.head? = a.toList.head? := by
  rw [String.toList_append, List.head?_append_of_ne_nil _ ha]

/-- No event is ignored with the words for a repeat. -/
theorem ignoredDetail_ne (kind : EventKind) : ignoredDetail kind ≠ "duplicate delivery" := by
  intro h
  have hhead := congrArg (fun s : String => s.toList.head?) h
  revert hhead
  unfold ignoredDetail
  split
  · decide
  · rw [String.append_assoc, head_append (by decide)]
    decide
  · rw [String.append_assoc, head_append (by decide)]
    decide
  · decide

end Responses

section Outcomes

variable {crates : Crates} {state : ServerState} {r : WebhookRequest}

theorem dispatch_success (event : TriggerEvent)
    (h : event.shouldTrigger → (state.repoMap event.repo).isSome → ∃ runId, r.stored = .ok runId) :
    (dispatch state event r.stored).1.isSuccess := by
  unfold dispatch ServerState.enqueue
  split_ifs with htrigger
  · exact Ack.ignored_success _
  · rcases hrepo : state.repoMap event.repo with _ | target
    · exact Ack.ignored_success _
    · obtain ⟨runId, hrun⟩ := h (by simpa using htrigger) (by simp [hrepo])
      rw [hrun]
      exact Ack.accepted_success runId

theorem dispatch_not_duplicate (event : TriggerEvent) (stored : Except StoreError String) :
    (dispatch state event stored).1 ≠ Ack.ignored "duplicate delivery" := by
  unfold dispatch ServerState.enqueue
  split_ifs
  · exact fun h => ignoredDetail_ne event.kind (Ack.ignored_inj h)
  · rcases state.repoMap event.repo with _ | target
    · exact fun h => absurd (Ack.ignored_inj h) (by decide)
    · rcases stored with e | runId <;> simp [Except.mapError, Ack.accepted, Ack.ignored]

/-- The provider that the path names, and that its secret verifies the request. -/
structure Verifies (crates : Crates) (state : ServerState) (r : WebhookRequest)
    (provider : Provider) (verified : Verified) : Prop where
  path : Provider.ofPath r.provider = some provider
  verify : verify crates.hmac provider (Headers.ofMap r.headers) r.body
    ((state.webhookSecret provider).map Utf8.encode) = .ok verified

theorem Verifies.deliveryId {provider : Provider} {verified : Verified}
    (h : Verifies crates state r provider verified) :
    r.deliveryId = (Headers.ofMap r.headers).get provider.deliveryHeader := by
  unfold WebhookRequest.deliveryId
  rw [h.path]
  rfl

/-- What a request can come to: it is refused unverified, it is a repeat, its payload is not
understood, or it is dispatched. -/
inductive Outcome (crates : Crates) (state : ServerState) (r : WebhookRequest) :
    Handled → ServerState → Prop
  | refused (response : Response) (h : response.isSuccess = false) :
    Outcome crates state r ⟨response, none, none⟩ state
  | repeated {provider verified deliveries} (hv : Verifies crates state r provider verified)
    (hcheck : state.deliveries.check r.deliveryId r.now = (.duplicate, deliveries)) :
    Outcome crates state r ⟨Ack.ignored "duplicate delivery", some .duplicate, none⟩
      { state with deliveries }
  | malformed {provider verified delivery deliveries e}
    (hv : Verifies crates state r provider verified)
    (hcheck : state.deliveries.check r.deliveryId r.now = (delivery, deliveries))
    (hnew : delivery ≠ .duplicate)
    (hparse : Webhook.parse crates.fromSlice provider (Headers.ofMap r.headers) r.body verified
      = .error e) :
    Outcome crates state r ⟨refusal e, some delivery, none⟩ { state with deliveries }
  | dispatched {provider verified delivery deliveries event}
    (hv : Verifies crates state r provider verified)
    (hcheck : state.deliveries.check r.deliveryId r.now = (delivery, deliveries))
    (hnew : delivery ≠ .duplicate)
    (hparse : Webhook.parse crates.fromSlice provider (Headers.ofMap r.headers) r.body verified
      = .ok event) :
    Outcome crates state r
      ⟨(dispatch state event r.stored).1, some delivery, (dispatch state event r.stored).2⟩
      { state with deliveries }

theorem webhook_outcome {handled : Handled} {state' : ServerState}
    (h : webhook crates state r = (handled, state')) : Outcome crates state r handled state' := by
  revert h
  unfold webhook
  rcases hpath : Provider.ofPath r.provider with _ | provider
  · rintro ⟨⟩
    exact .refused _ rfl
  simp only []
  rcases hverify : verify crates.hmac provider (Headers.ofMap r.headers) r.body
      ((state.webhookSecret provider).map Utf8.encode) with e | verified
  · rintro ⟨⟩
    exact .refused _ (rejected_not_success e)
  have hv : Verifies crates state r provider verified := ⟨hpath, hverify⟩
  simp only [← hv.deliveryId]
  rcases hcheck : state.deliveries.check r.deliveryId r.now with ⟨delivery, deliveries⟩
  simp only []
  split_ifs with hdup
  · subst hdup
    rintro ⟨⟩
    exact .repeated hv hcheck
  rcases hparse : Webhook.parse crates.fromSlice provider (Headers.ofMap r.headers) r.body verified
    with e | event
  · rintro ⟨⟩
    exact .malformed hv hcheck hdup hparse
  · rintro ⟨⟩
    exact .dispatched hv hcheck hdup hparse

/-- Only the guard is changed by a request, as far as it was asked. -/
theorem Outcome.after {handled : Handled} {state' : ServerState}
    (h : Outcome crates state r handled state') :
    (handled.checked = none ∧ state' = state) ∨
      handled.checked = some (state.deliveries.check r.deliveryId r.now).1 ∧
        state' = { state with deliveries := (state.deliveries.check r.deliveryId r.now).2 } := by
  cases h with
  | refused => exact .inl ⟨rfl, rfl⟩
  | repeated _ hcheck => exact .inr (by rw [hcheck]; exact ⟨rfl, rfl⟩)
  | malformed _ hcheck => exact .inr (by rw [hcheck]; exact ⟨rfl, rfl⟩)
  | dispatched _ hcheck => exact .inr (by rw [hcheck]; exact ⟨rfl, rfl⟩)

theorem serve_outcome {s s' : Served} (h : serve crates s r = some s') :
    ∃ handled state', Outcome crates s.state r handled state' ∧
      s' = ⟨state', s.log ++ [(r, handled)]⟩ := by
  unfold serve at h
  rcases hw : webhook crates s.state r with ⟨handled, state'⟩
  rw [hw] at h
  simp only [Option.some.injEq] at h
  exact ⟨handled, state', webhook_outcome hw, h.symm⟩

end Outcomes

section Sample

/-- A GitLab push to a repository, as it is sent and as it is parsed. -/
def pushBody : List UInt8 :=
  Utf8.encode "\x7b\"ref\":\"refs/heads/main\",\"project\":\x7b\"path_with_namespace\":\"acme/web\"\x7d\x7d"

def pushJson : Json :=
  .object [("ref", .string "refs/heads/main"),
    ("project", .object [("path_with_namespace", .string "acme/web")])]

/-- GitLab does not sign, so no delivery of the samples comes to HMAC-SHA256. -/
def sampleCrates : Crates where
  hmac := ⟨fun _ _ => List.replicate 32 0, by simp⟩
  fromSlice body :=
    if body = pushBody then .ok pushJson else .error "EOF while parsing a value at line 1 column 0"

def sampleServer : ServerState :=
  (ServerState.new (DeliveryGuard.new DeliveryGuard.defaultTtl DeliveryGuard.defaultCapacity)
    fun provider => if provider = .gitLab then some "secret" else none).mapRepo "acme/web" "web" "ci"

def sampleDelivery (body : List UInt8) (now : ℕ) : WebhookRequest where
  provider := "gitlab"
  headers := [("x-gitlab-token", some "secret"), ("x-gitlab-event", some "Push Hook"),
    ("x-gitlab-event-uuid", some "d1")]
  body := body
  now := now
  stored := .ok "run"

theorem serve_two (crates : Crates) (state : ServerState) (r₁ r₂ : WebhookRequest) :
    Runs.exec (serve crates) ⟨state, []⟩ [r₁, r₂] =
      some ⟨(webhook crates (webhook crates state r₁).2 r₂).2,
        [(r₁, (webhook crates state r₁).1),
          (r₂, (webhook crates (webhook crates state r₁).2 r₂).1)]⟩ := rfl

theorem sample_settles (s : Served) (now : ℕ) :
    Settles sampleCrates s (sampleDelivery pushBody now) := by
  intro provider verified hpath _ _
  obtain rfl : Provider.gitLab = provider := Option.some.inj hpath
  refine ⟨_, rfl, fun _ _ => ⟨"run", rfl⟩⟩

end Sample

section NoneLost

variable {crates : Crates}

theorem Acknowledged.append {log : List Exchange} {id : String} (h : Acknowledged log id)
    (e : Exchange) : Acknowledged (log ++ [e]) id := by
  obtain ⟨d, hd, hid⟩ := h
  exact ⟨d, List.mem_append_left _ hd, hid⟩

/-- Every delivery that the guard remembers was acknowledged. -/
structure Settled (s : Served) : Prop where
  room : 0 < s.state.deliveries.capacity
  kept : ∀ e ∈ s.state.deliveries.seen, Acknowledged s.log e.1
  none_lost : NoneLost s.log

/-- A delivery that the guard lets through is acknowledged, if it can be settled. -/
theorem settles_success {s : Served} {r : WebhookRequest} {handled : Handled} {state' : ServerState}
    (hok : Settles crates s r) (h : Outcome crates s.state r handled state')
    (hfresh : handled.checked = some .fresh) : handled.response.isSuccess := by
  cases h with
  | refused => cases hfresh
  | repeated => cases hfresh
  | malformed hv hcheck hnew hparse =>
    cases hfresh
    obtain ⟨event, hevent, -⟩ := hok _ _ hv.path hv.verify (by rw [hcheck])
    rw [hparse] at hevent
    cases hevent
  | dispatched hv hcheck hnew hparse =>
    cases hfresh
    obtain ⟨event, hevent, hstored⟩ := hok _ _ hv.path hv.verify (by rw [hcheck])
    rw [hparse] at hevent
    cases hevent
    exact dispatch_success _ hstored

/-- The words for a repeat are only used for one. -/
theorem duplicate_repeated {state state' : ServerState} {r : WebhookRequest} {handled : Handled}
    (h : Outcome crates state r handled state')
    (hdup : handled.response = Ack.ignored "duplicate delivery") :
    (state.deliveries.check r.deliveryId r.now).1 = .duplicate := by
  have hsuccess : handled.response.isSuccess := by
    rw [hdup]
    exact Ack.ignored_success _
  cases h with
  | refused response hfail =>
    rw [hfail] at hsuccess
    cases hsuccess
  | repeated hv hcheck => rw [hcheck]
  | malformed hv hcheck hnew hparse =>
    rw [refusal_not_success] at hsuccess
    cases hsuccess
  | dispatched hv hcheck hnew hparse => exact absurd hdup (dispatch_not_duplicate _ _)

theorem settled_step (s : Served) (r : WebhookRequest) (s' : Served) (hs : Settled s)
    (hok : Settles crates s r) (h : serve crates s r = some s') : Settled s' := by
  obtain ⟨handled, state', hout, rfl⟩ := serve_outcome h
  refine ⟨?_, fun e he => ?_, Runs.throughout_concat.2 ⟨hs.none_lost, fun hdup => ?_⟩⟩
  · rcases hout.after with ⟨-, rfl⟩ | ⟨-, rfl⟩
    · exact hs.room
    · exact (DeliveryGuard.check_capacity _ _ _).symm ▸ hs.room
  · rcases hout.after with ⟨-, rfl⟩ | ⟨hchecked, rfl⟩
    · exact (hs.kept e he).append _
    · rcases DeliveryGuard.check_seen hs.room he with hold | ⟨hfresh, hid⟩
      · exact (hs.kept e hold).append _
      · rw [hfresh] at hchecked
        exact ⟨(r, handled), by simp, hid, settles_success hok hout hchecked⟩
  · obtain ⟨k, t, hid, hseen⟩ := DeliveryGuard.check_duplicate (duplicate_repeated hout hdup)
    exact ⟨k, hid, hs.kept _ hseen⟩

/-- No delivery is lost to the guard, while every one it lets through can be settled. -/
theorem no_delivery_lost {state : ServerState} {ttl capacity : ℕ}
    (hstate : state.deliveries = DeliveryGuard.new ttl capacity) {requests : List WebhookRequest}
    {s : Served} (hok : Runs.AllSteps (serve crates) (Settles crates) ⟨state, []⟩ requests)
    (h : Runs.exec (serve crates) ⟨state, []⟩ requests = some s) : NoneLost s.log := by
  have hstart : Settled ⟨state, []⟩ := by
    refine ⟨?_, fun e he => ?_, Runs.throughout_nil _⟩
    · rw [hstate]
      exact Nat.lt_of_lt_of_le Nat.one_pos (le_max_right _ _)
    · rw [hstate] at he
      cases he
  exact (Runs.exec_keeps settled_step hstart hok h).none_lost

/-- A delivery that is sent again after it was accepted is a repeat of it. -/
theorem redelivery_not_lost : ∃ s, Runs.exec (serve sampleCrates) ⟨sampleServer, []⟩
    [sampleDelivery pushBody 0, sampleDelivery pushBody 1] = some s ∧
      s.log.map (·.2.checked) = [some .fresh, some .duplicate] ∧ NoneLost s.log := by
  have hok : Runs.AllSteps (serve sampleCrates) (Settles sampleCrates) ⟨sampleServer, []⟩
      [sampleDelivery pushBody 0, sampleDelivery pushBody 1] :=
    ⟨sample_settles _ 0, fun s _ => ⟨sample_settles s 1, fun _ _ => trivial⟩⟩
  exact ⟨_, serve_two _ _ _ _, by decide +kernel, no_delivery_lost rfl hok (serve_two _ _ _ _)⟩

/-- A delivery that is refused as malformed is lost: sent again, it is taken for a repeat. -/
theorem delivery_lost : ¬∀ (crates : Crates) (state : ServerState) (ttl capacity : ℕ)
    (requests : List WebhookRequest) (s : Served),
    state.deliveries = DeliveryGuard.new ttl capacity →
      Runs.exec (serve crates) ⟨state, []⟩ requests = some s → NoneLost s.log := by
  intro hall
  have hlog := hall sampleCrates sampleServer _ _ _ _ rfl
    (serve_two _ _ (sampleDelivery [] 0) (sampleDelivery [] 1))
  have hfirst : (webhook sampleCrates sampleServer (sampleDelivery [] 0)).1 =
      ⟨⟨400, .text "malformed payload"⟩, some .fresh, none⟩ := by decide +kernel
  have hsecond : (webhook sampleCrates
      (webhook sampleCrates sampleServer (sampleDelivery [] 0)).2 (sampleDelivery [] 1)).1 =
      ⟨Ack.ignored "duplicate delivery", some .duplicate, none⟩ := by decide +kernel
  rw [hfirst, hsecond] at hlog
  obtain ⟨id, -, d, hd, -, hsuccess⟩ := hlog [_] _ [] rfl rfl
  obtain rfl := List.mem_singleton.1 hd
  cases hsuccess

end NoneLost

section Once

variable {crates : Crates}

theorem passed_concat (log : List Exchange) (e : Exchange) :
    passed (log ++ [e]) = e.letThrough.toList ++ passed log := by
  unfold passed
  rw [List.filterMap_append, List.reverse_append]
  rcases he : e.letThrough with _ | f <;> simp [he]

theorem passed_append (l₁ l₂ : List Exchange) : passed (l₁ ++ l₂) = passed l₂ ++ passed l₁ := by
  unfold passed
  rw [List.filterMap_append, List.reverse_append]

theorem readings_concat (log : List Exchange) (e : Exchange) :
    readings (log ++ [e]) = readings log ++ e.reading.toList := by
  unfold readings
  rw [List.filterMap_append]
  rcases he : e.reading with _ | t <;> simp [he]

/-- The guard reads the clock for what it lets through. -/
theorem passed_reading {log : List Exchange} {f : String × ℕ} (h : f ∈ passed log) :
    f.2 ∈ readings log := by
  obtain ⟨e, he, hf⟩ := List.mem_filterMap.1 (List.mem_reverse.1 h)
  refine List.mem_filterMap.2 ⟨e, he, ?_⟩
  unfold Exchange.letThrough at hf
  split_ifs at hf with hfresh
  obtain ⟨id, -, rfl⟩ := Option.map_eq_some_iff.1 hf
  unfold Exchange.reading
  rw [if_pos (.inl hfresh)]

/-- What the guard says of a delivery with an id it can keep. -/
def Judged (ttl capacity : ℕ) (before : List Exchange) (e : Exchange) : Prop :=
  ∀ id, e.1.deliveryId = some id → DeliveryGuard.identifies id → e.2.checked.isSome →
    (Recency.Recent ttl capacity (passed before) e.1.now id ∧ e.2.checked = some .duplicate) ∨
      ¬Recency.Recent ttl capacity (passed before) e.1.now id ∧ e.2.checked = some .fresh

/-- The guard knows what it let through, and has said of every delivery what follows from that. -/
structure Watched (ttl capacity : ℕ) (s : Served) : Prop where
  ttl_eq : s.state.deliveries.ttl = ttl
  capacity_eq : s.state.deliveries.capacity = capacity
  tracks : ∀ now, (∀ t ∈ readings s.log, t ≤ now) →
    Recency.Tracks s.state.deliveries (passed s.log) now
  judged : Runs.Throughout (Judged ttl capacity) s.log

/-- What reaches the queue is authentic, and was let through. -/
structure Admitted (crates : Crates) (secrets : Provider → Option String) (e : Exchange) : Prop where
  authentic : Authentic crates secrets e.1
  checked : e.2.checked.isSome
  let_through : e.2.checked ≠ some .duplicate

theorem Verifies.authentic {state : ServerState} {r : WebhookRequest} {provider : Provider}
    {verified : Verified} (h : Verifies crates state r provider verified) :
    Authentic crates state.secrets r := by
  obtain ⟨key, hkey, hne, -⟩ := verify_secret_iff.1 h.verify
  obtain ⟨secret, hsecret, rfl⟩ := Option.map_eq_some_iff.1 hkey
  refine ⟨provider, secret, verified, h.path, hsecret, fun hempty => hne (hempty ▸ rfl), ?_⟩
  rw [← hkey]
  exact h.verify

theorem outcome_admitted {state state' : ServerState} {r : WebhookRequest} {handled : Handled}
    (h : Outcome crates state r handled state') (hq : Exchange.enqueues (r, handled)) :
    Admitted crates state.secrets (r, handled) := by
  cases h with
  | refused => cases hq
  | repeated => cases hq
  | malformed => cases hq
  | dispatched hv hcheck hnew hparse =>
    exact ⟨hv.authentic, rfl, fun hdup => hnew (Option.some.inj hdup)⟩

/-- An exchange that the guard has no opinion on leaves it as it was. -/
theorem Watched.unread {ttl capacity : ℕ} {s : Served} (hs : Watched ttl capacity s)
    {e : Exchange} (hread : e.reading = none) (hpass : e.letThrough = none)
    (hjudged : Judged ttl capacity s.log e) :
    Watched ttl capacity ⟨s.state, s.log ++ [e]⟩ := by
  refine ⟨hs.ttl_eq, hs.capacity_eq, fun now hnow => ?_, Runs.throughout_concat.2 ⟨hs.judged,
    hjudged⟩⟩
  rw [readings_concat, hread, Option.toList_none, List.append_nil] at hnow
  rw [passed_concat, hpass]
  exact hs.tracks now hnow

/-- One question to the guard, asked later than the others. -/
theorem Watched.read {ttl capacity : ℕ} {s : Served} (hs : Watched ttl capacity s)
    (hpos : 0 < capacity) {r : WebhookRequest} {handled : Handled} {k : String}
    (hid : r.deliveryId = some k) (hlater : ∀ t ∈ readings s.log, t < r.now)
    (hchecked : handled.checked =
      some (if (s.state.deliveries.touch r.now k).1 then .duplicate else .fresh)) :
    Watched ttl capacity
      ⟨{ s.state with deliveries := (s.state.deliveries.touch r.now k).2 },
        s.log ++ [(r, handled)]⟩ := by
  obtain ⟨hverdict, htracks⟩ := Recency.Tracks.touch_later hs.tracks (fun _ => passed_reading)
    (hs.capacity_eq.symm ▸ hpos) hlater k
  rw [hs.ttl_eq, hs.capacity_eq] at hverdict
  have hread : Exchange.reading (r, handled) = some r.now := by
    unfold Exchange.reading
    rw [hchecked]
    split_ifs <;> simp_all
  have hpassed : passed (s.log ++ [(r, handled)]) =
      if (s.state.deliveries.touch r.now k).1 then passed s.log
      else (k, r.now) :: passed s.log := by
    rw [passed_concat]
    unfold Exchange.letThrough
    rw [hchecked, hid]
    rcases (s.state.deliveries.touch r.now k).1 <;> rfl
  refine ⟨(Recency.Window.touch_ttl _ _ _).trans hs.ttl_eq,
    (Recency.Window.touch_capacity _ _ _).trans hs.capacity_eq, fun now hnow => ?_,
    Runs.throughout_concat.2 ⟨hs.judged, fun id hid' hkeeps _ => ?_⟩⟩
  · rw [readings_concat, hread] at hnow
    rw [hpassed]
    exact htracks now hnow
  · obtain rfl : k = id := Option.some.inj (hid.symm.trans hid')
    by_cases hrecent : Recency.Recent ttl capacity (passed s.log) r.now k
    · exact .inl ⟨hrecent, by rw [hchecked, if_pos (hverdict.2 hrecent)]⟩
    · exact .inr ⟨hrecent, by rw [hchecked, if_neg fun hyes => hrecent (hverdict.1 hyes)]⟩

theorem watched_step {ttl capacity : ℕ} (hpos : 0 < capacity) (s : Served) (r : WebhookRequest)
    (s' : Served) (hs : (readings s.log).Pairwise (· < ·) → Watched ttl capacity s)
    (h : serve crates s r = some s') (hclock : (readings s'.log).Pairwise (· < ·)) :
    Watched ttl capacity s' := by
  obtain ⟨handled, state', hout, rfl⟩ := serve_outcome h
  rw [readings_concat, List.pairwise_append] at hclock
  obtain ⟨hold, -, hlater⟩ := hclock
  have hw := hs hold
  rcases hout.after with ⟨hchecked, rfl⟩ | ⟨hchecked, rfl⟩
  · refine hw.unread ?_ ?_ fun id _ _ hsome => ?_
    · simp [Exchange.reading, hchecked]
    · simp [Exchange.letThrough, hchecked]
    · simp [hchecked] at hsome
  rcases DeliveryGuard.check_cases s.state.deliveries r.deliveryId r.now with
    ⟨k, hid, -, hcheck⟩ | ⟨hnone, hcheck⟩
  · rw [hcheck] at hchecked ⊢
    refine hw.read hpos hid (fun t ht => hlater t ht r.now ?_) hchecked
    unfold Exchange.reading
    rw [hchecked]
    split_ifs <;> simp_all
  · rw [hcheck] at hchecked ⊢
    refine hw.unread ?_ ?_ fun id hid hkeeps _ => absurd hkeeps (hnone id hid)
    · simp [Exchange.reading, hchecked]
    · simp [Exchange.letThrough, hchecked]

theorem admitted_step {secrets : Provider → Option String} (s : Served) (r : WebhookRequest)
    (s' : Served) (hs : s.state.secrets = secrets ∧
      ∀ e ∈ s.log, e.enqueues → Admitted crates secrets e) (h : serve crates s r = some s') :
    s'.state.secrets = secrets ∧ ∀ e ∈ s'.log, e.enqueues → Admitted crates secrets e := by
  obtain ⟨handled, state', hout, rfl⟩ := serve_outcome h
  obtain ⟨hsecrets, hadmitted⟩ := hs
  refine ⟨?_, fun e he hq => ?_⟩
  · rcases hout.after with ⟨-, rfl⟩ | ⟨-, rfl⟩ <;> exact hsecrets
  · rcases List.mem_append.1 he with he | he
    · exact hadmitted e he hq
    · rw [List.mem_singleton] at he
      subst he
      exact hsecrets ▸ outcome_admitted hout hq

/-- What the guard lets through a second time was let through long ago, or before many others. -/
theorem recent_between {ttl capacity now : ℕ} {before between : List Exchange} {a : Exchange}
    {id : String} (horder : (passed (before ++ a :: between)).Pairwise fun f g => g.2 < f.2)
    (ha : a.letThrough = some (id, a.1.now)) (hage : now - a.1.now < ttl)
    (hfew : ((fresh between).erase id).card < capacity) :
    Recency.Recent ttl capacity (passed (before ++ a :: between)) now id := by
  have hpassed : passed (before ++ a :: between) =
      passed between ++ (id, a.1.now) :: passed before := by
    rw [List.append_cons, passed_append, passed_concat, ha]
    rfl
  rw [hpassed] at horder ⊢
  have hmem : (id, a.1.now) ∈ passed between ++ (id, a.1.now) :: passed before := by simp
  rcases hfind : Recency.find (passed between ++ (id, a.1.now) :: passed before) id with _ | t
  · exact absurd rfl (Recency.find_eq_none.1 hfind _ hmem)
  have hlate := Recency.latest horder hfind hmem
  refine ⟨t, hfind, by omega, (Finset.card_le_card fun k hk => ?_).trans_lt hfew⟩
  obtain ⟨t', hk, hlt⟩ := Recency.mem_since.1 hk
  have hne : k ≠ id := by
    rintro rfl
    have := Recency.latest horder hfind hk
    omega
  -- later than the last time `id` was let through is after `a`
  rw [List.pairwise_append, List.pairwise_cons] at horder
  rcases List.mem_append.1 hk with hk | hk
  · exact Finset.mem_erase.2 ⟨hne, List.mem_toFinset.2 (List.mem_map.2 ⟨_, hk, rfl⟩)⟩
  rcases List.mem_cons.1 hk with hsame | hk
  · exact absurd (congrArg Prod.fst hsame) hne
  · have := horder.2.1.1 _ hk
    simp only [] at this
    omega

theorem Judged.letThrough {ttl capacity : ℕ} {secrets : Provider → Option String}
    {before : List Exchange} {e : Exchange} {id : String} (h : Judged ttl capacity before e)
    (ha : Admitted crates secrets e) (hid : e.1.deliveryId = some id)
    (hkeeps : DeliveryGuard.identifies id) :
    e.letThrough = some (id, e.1.now) ∧
      ¬Recency.Recent ttl capacity (passed before) e.1.now id := by
  rcases h id hid hkeeps ha.checked with ⟨-, hdup⟩ | ⟨hold, hfresh⟩
  · exact absurd hdup ha.let_through
  · refine ⟨?_, hold⟩
    unfold Exchange.letThrough
    rw [if_pos hfresh, hid]
    rfl

theorem Watched.at_most_once {ttl capacity : ℕ} {secrets : Provider → Option String} {s : Served}
    (hw : Watched ttl capacity s) (ha : ∀ e ∈ s.log, e.enqueues → Admitted crates secrets e) :
    AtMostOnce ttl capacity s.log := by
  rintro before a between b after id hlog haid hbid hkeeps hage hfew ⟨haq, hbq⟩
  have hbadm := ha b (by simp [hlog]) hbq
  have haadm := ha a (by simp [hlog]) haq
  have hsplit : s.log = before ++ a :: (between ++ b :: after) := by simp [hlog]
  obtain ⟨hpass, -⟩ := (hw.judged before a _ hsplit).letThrough haadm haid hkeeps
  obtain ⟨-, hnot⟩ := (hw.judged (before ++ a :: between) b after (by simp [hlog])).letThrough
    hbadm hbid hkeeps
  obtain ⟨now, hnow⟩ := (readings s.log).toFinset.exists_le
  have horder := (hw.tracks now fun t ht => hnow t (List.mem_toFinset.2 ht)).order
  rw [hlog, passed_append] at horder
  exact hnot (recent_between (horder.sublist (List.sublist_append_right _ _)) hpass hage hfew)

/-- Only authentic deliveries reach the queue, and each at most once while the guard remembers. -/
theorem authentic_once {state : ServerState} {ttl capacity : ℕ}
    (hstate : state.deliveries = DeliveryGuard.new ttl capacity) {requests : List WebhookRequest}
    {s : Served} (h : Runs.exec (serve crates) ⟨state, []⟩ requests = some s)
    (hclock : (readings s.log).Pairwise (· < ·)) :
    (∀ e ∈ s.log, e.enqueues → Authentic crates state.secrets e.1) ∧
      AtMostOnce ttl (max capacity 1) s.log := by
  have hpos : 0 < max capacity 1 := Nat.lt_of_lt_of_le Nat.one_pos (le_max_right _ _)
  have hall : Runs.AllSteps (serve crates) (fun _ _ => True) ⟨state, []⟩ requests :=
    Runs.allSteps_of_forall (fun _ _ => trivial) requests _
  have hwatched : (readings s.log).Pairwise (· < ·) → Watched ttl (max capacity 1) s := by
    refine Runs.exec_keeps (fun s r s' hs _ hstep => watched_step hpos s r s' hs hstep) ?_ hall h
    intro _
    refine ⟨by rw [hstate]; rfl, by rw [hstate]; rfl, fun now _ => ?_, Runs.throughout_nil _⟩
    rw [hstate]
    exact Recency.tracks_empty ttl (max capacity 1) now
  have hadmitted := (Runs.exec_keeps (fun s r s' hs _ hstep => admitted_step s r s' hs hstep)
    (I := fun s => s.state.secrets = state.secrets ∧
      ∀ e ∈ s.log, e.enqueues → Admitted crates state.secrets e)
    ⟨rfl, by simp⟩ hall h).2
  exact ⟨fun e he hq => (hadmitted e he hq).authentic,
    (hwatched hclock).at_most_once hadmitted⟩

theorem redelivery_once : ∃ s, Runs.exec (serve sampleCrates) ⟨sampleServer, []⟩
    [sampleDelivery pushBody 0, sampleDelivery pushBody 1] = some s ∧
      s.log.map (·.2.enqueued.isSome) = [true, false] ∧
      (∀ e ∈ s.log, e.enqueues → Authentic sampleCrates sampleServer.secrets e.1) ∧
      AtMostOnce DeliveryGuard.defaultTtl DeliveryGuard.defaultCapacity s.log := by
  have hrun := serve_two sampleCrates sampleServer (sampleDelivery pushBody 0)
    (sampleDelivery pushBody 1)
  exact ⟨_, hrun, by decide +kernel, authentic_once rfl hrun (by decide +kernel)⟩

end Once

section NoInfluence

variable {crates : Crates}

theorem failsVerify_iff {secrets : Provider → Option String} {r : WebhookRequest} :
    failsVerify crates secrets r ↔ ∃ provider e, Provider.ofPath r.provider = some provider ∧
      verify crates.hmac provider (Headers.ofMap r.headers) r.body
        ((secrets provider).map Utf8.encode) = .error e := by
  unfold failsVerify
  rcases Provider.ofPath r.provider with _ | provider
  · simp
  · rcases hv : verify crates.hmac provider (Headers.ofMap r.headers) r.body
      ((secrets provider).map Utf8.encode) with e | verified <;> simp [hv]

/-- A request that fails its check is answered, and that is all. -/
theorem webhook_failsVerify {state : ServerState} {r : WebhookRequest}
    (h : failsVerify crates state.secrets r) :
    (webhook crates state r).2 = state ∧ (webhook crates state r).1.enqueued = none := by
  obtain ⟨provider, e, hpath, hverify⟩ := failsVerify_iff.1 h
  have hsecret : verify crates.hmac provider (Headers.ofMap r.headers) r.body
      ((state.webhookSecret provider).map Utf8.encode) = .error e := hverify
  simp [webhook, hpath, hsecret]

theorem webhook_secrets (crates : Crates) (state : ServerState) (r : WebhookRequest) :
    (webhook crates state r).2.secrets = state.secrets := by
  rcases hw : webhook crates state r with ⟨handled, state'⟩
  rcases (webhook_outcome hw).after with ⟨-, rfl⟩ | ⟨-, rfl⟩ <;> rfl

theorem exec_serve (crates : Crates) : ∀ (requests : List WebhookRequest) (s : Served),
    Runs.exec (serve crates) s requests = some
      ⟨(Purge.run (webhook crates) s.state requests).2,
        s.log ++ (Purge.run (webhook crates) s.state requests).1⟩
  | [], s => by simp [Purge.run]
  | r :: requests, s => by
    have hone : serve crates s r
        = some ⟨(webhook crates s.state r).2, s.log ++ [(r, (webhook crates s.state r).1)]⟩ := rfl
    rw [Runs.exec_cons hone, exec_serve crates requests]
    simp [Purge.run]

theorem run_enqueued {secrets : Provider → Option String} : ∀ (requests : List WebhookRequest)
    {state : ServerState}, state.secrets = secrets →
      enqueueCalls (Purge.run (webhook crates) state requests).1
        = enqueueCalls (unforged crates secrets (Purge.run (webhook crates) state requests).1)
  | [], _, _ => rfl
  | r :: requests, state, hsecrets => by
    have ih := run_enqueued requests ((webhook_secrets crates state r).trans hsecrets)
    subst hsecrets
    unfold enqueueCalls unforged at ih ⊢
    simp only [Purge.run, List.filterMap_cons]
    by_cases hr : failsVerify crates state.secrets r
    · rw [List.filter_cons_of_neg (by simp [hr]), (webhook_failsVerify hr).2]
      exact ih
    · rw [List.filter_cons_of_pos (by simp [hr]), List.filterMap_cons, ih]

/-- Requests that fail their check change nothing but the answers to themselves. -/
theorem forged_no_influence {state : ServerState} {requests requests' : List WebhookRequest}
    {s s' : Served} (hsame : SameButForged crates state.secrets requests requests')
    (h : Runs.exec (serve crates) ⟨state, []⟩ requests = some s)
    (h' : Runs.exec (serve crates) ⟨state, []⟩ requests' = some s') :
    s.state = s'.state ∧ enqueueCalls s.log = enqueueCalls s'.log
      ∧ unforged crates state.secrets s.log = unforged crates state.secrets s'.log := by
  rw [exec_serve, Option.some.injEq] at h h'
  subst h h'
  have hpurge : ∀ rs, Purge.run (webhook crates) state
      (Purge.purge (failsVerify crates state.secrets) rs)
        = (unforged crates state.secrets (Purge.run (webhook crates) state rs).1,
          (Purge.run (webhook crates) state rs).2) := fun rs =>
    Purge.run_purge (I := fun s => s.secrets = state.secrets)
      (fun s r hs => (webhook_secrets crates s r).trans hs)
      (fun s r hs hr => (webhook_failsVerify (hs.symm ▸ hr)).1) rs rfl
  have hboth := (hpurge requests).symm.trans ((congrArg _ hsame).trans (hpurge requests'))
  rw [Prod.mk.injEq] at hboth
  simp only [List.nil_append]
  refine ⟨hboth.2, ?_, hboth.1⟩
  rw [run_enqueued requests rfl, run_enqueued requests' rfl, hboth.1]

/-- A delivery with a wrong token. -/
def forgedDelivery : WebhookRequest :=
  { sampleDelivery pushBody 0 with
    headers := [("x-gitlab-token", some "guess"), ("x-gitlab-event", some "Push Hook"),
      ("x-gitlab-event-uuid", some "d1")] }

/-- A forged delivery does not get in the way of the true one, whose id it bears. -/
theorem forged_before_push : ∃ s s', Runs.exec (serve sampleCrates) ⟨sampleServer, []⟩
    [forgedDelivery, sampleDelivery pushBody 1] = some s ∧
      Runs.exec (serve sampleCrates) ⟨sampleServer, []⟩ [sampleDelivery pushBody 1] = some s' ∧
      (enqueueCalls s.log).length = 1 ∧ s.state = s'.state ∧
      enqueueCalls s.log = enqueueCalls s'.log ∧
      unforged sampleCrates sampleServer.secrets s.log
        = unforged sampleCrates sampleServer.secrets s'.log := by
  refine ⟨_, _, exec_serve _ _ _, exec_serve _ _ _, by decide +kernel, ?_⟩
  refine forged_no_influence ?_ (exec_serve _ _ _) (exec_serve _ _ _)
  have hforged : failsVerify sampleCrates sampleServer.secrets forgedDelivery = true := by
    decide +kernel
  unfold SameButForged Purge.purge
  rw [List.filter_cons_of_neg (by simp [hforged])]

end NoInfluence

end Jetrun
