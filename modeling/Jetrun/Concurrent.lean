import Jetrun.Http
import Jetrun.Lib.Locking

/-!
# The webhook endpoint under load

The server handles requests side by side. What they share and change is the deliveries seen before,
behind a lock; the clock is read before the lock is taken.
-/

namespace Jetrun

namespace Concurrent

/-- A request that passed its check. -/
structure Pending where
  request : WebhookRequest
  provider : Provider
  verified : Verified

variable (crates : Crates) (state : ServerState)

/-- The answer to a request that fails its check. -/
def untilGuard (r : WebhookRequest) : Handled ⊕ Pending :=
  match Provider.ofPath r.provider with
  | none => .inl ⟨⟨404, .unknownProvider r.provider⟩, none, none⟩
  | some provider =>
    match verify crates.hmac provider (Headers.ofMap r.headers) r.body
        ((state.webhookSecret provider).map Utf8.encode) with
    | .error e => .inl ⟨rejected e, none, none⟩
    | .ok verified => .inr ⟨r, provider, verified⟩

/-- The part of `check` that holds the lock, with the clock as it was read before. -/
def guarded (p : Pending) (now : ℕ) (deliveries : DeliveryGuard) : Delivery × DeliveryGuard :=
  deliveries.check ((Headers.ofMap p.request.headers).get p.provider.deliveryHeader) now

def settle (p : Pending) (delivery : Delivery) : Handled :=
  if delivery = .duplicate then ⟨Ack.ignored "duplicate delivery", some delivery, none⟩
  else
    match Webhook.parse crates.fromSlice p.provider (Headers.ofMap p.request.headers)
        p.request.body p.verified with
    | .error e => ⟨refusal e, some delivery, none⟩
    | .ok event =>
      let (response, enqueued) := dispatch state event p.request.stored
      ⟨response, some delivery, enqueued⟩

def handler : Locking.Handler WebhookRequest DeliveryGuard Pending Delivery Handled where
  before := untilGuard crates state
  locked := guarded
  after := settle crates state

end Concurrent

/-- A server that is handling requests. -/
abbrev Busy :=
  Locking.Server WebhookRequest DeliveryGuard Concurrent.Pending Delivery Handled

namespace Busy

def step (crates : Crates) (state : ServerState) :
    Busy → Locking.Move WebhookRequest → Option Busy :=
  Locking.Server.move (Concurrent.handler crates state)

def new (state : ServerState) : Busy := Locking.Server.new state.deliveries

/-- The request, with the reading of the clock that it was handled with. -/
def stamped (e : Locking.Effect WebhookRequest Handled) : WebhookRequest :=
  { e.request with now := e.reading }

/-- The requests could have been handled one after the other. -/
structure Linearized (crates : Crates) (state : ServerState)
    (moves : List (Locking.Move WebhookRequest)) (s : Busy) : Prop where
  /-- Handled in the order they take effect in, they get the same answers and leave the same
  state. -/
  served : Runs.exec (serve crates) ⟨state, []⟩ (s.effects.map stamped) =
    some ⟨{ state with deliveries := s.shared }, s.effects.map fun e => (stamped e, e.answer)⟩
  once : (s.effects.map (·.handler)).Nodup
  answered : ∀ k r handled, s.Done k r handled →
    ∃ e ∈ s.effects, e.handler = k ∧ e.request = r ∧ e.answer = handled
  /-- A request takes effect after those that were answered before it came. -/
  in_time : ∀ before after mid, moves = before ++ after →
    Runs.exec (step crates state) (new state) before = some mid →
    ∀ e ∈ s.effects, ∀ l₁ f l₂, s.effects = l₁ ++ f :: l₂ →
      (∃ r handled, mid.Done e.handler r handled) → mid.handlers.length ≤ f.handler → e ∈ l₁

/-- The deliveries that were let through at `t` or later. -/
def throughFrom (effects : List (Locking.Effect WebhookRequest Handled)) (t : ℕ) : Finset String :=
  (effects.filterMap fun e =>
    if e.answer.checked = some .fresh ∧ t ≤ e.time then e.request.deliveryId else none).toFinset

/-- Of two requests with one delivery id, at most one reaches the queue, if the second takes the
lock less than `ttl` after the clock was read for the first, and fewer than `capacity` other
deliveries are let through in between. -/
def AtMostOnce (ttl capacity : ℕ) (effects : List (Locking.Effect WebhookRequest Handled)) : Prop :=
  ∀ before a between b after id, effects = before ++ a :: between ++ b :: after →
    a.request.deliveryId = some id → b.request.deliveryId = some id →
    DeliveryGuard.identifies id → b.time - a.reading < ttl →
    ((throughFrom (before ++ a :: between) a.reading).erase id).card < capacity →
    ¬(a.answer.enqueued.isSome ∧ b.answer.enqueued.isSome)

end Busy

end Jetrun
