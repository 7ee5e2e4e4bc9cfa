import Jetrun.Http
import Jetrun.Lib.Purge

/-!
# What the webhook endpoint promises

No delivery is lost: a provider is told that a delivery was a repeat only if the first one was
handled. And no delivery counts twice: only what a provider proved to have sent starts a run, and,
while the guard remembers it, once.
-/

namespace Jetrun

namespace Exchange

def isDuplicate (e : Exchange) : Prop := e.2.response = Ack.ignored "duplicate delivery"

def enqueues (e : Exchange) : Prop := e.2.enqueued.isSome

/-- The delivery, if the guard let it through, and when. -/
def letThrough (e : Exchange) : Option (String × ℕ) :=
  if e.2.checked = some .fresh then e.1.deliveryId.map fun id => (id, e.1.now) else none

/-- When the guard read the clock, if it did. -/
def reading (e : Exchange) : Option ℕ :=
  if e.2.checked = some .fresh ∨ e.2.checked = some .duplicate then some e.1.now else none

end Exchange

section NoneLost

/-- A delivery with this id was answered with success. -/
def Acknowledged (log : List Exchange) (id : String) : Prop :=
  ∃ d ∈ log, d.1.deliveryId = some id ∧ d.2.response.isSuccess

/-- A delivery is a repeat only of one that was acknowledged before. -/
def NoneLost (log : List Exchange) : Prop :=
  Runs.Throughout (fun before e => e.isDuplicate →
    ∃ id, e.1.deliveryId = some id ∧ Acknowledged before id) log

/-- A verified delivery that the guard lets through has a payload that is understood, and the run it
asks for, if its repository is mapped, can be recorded. -/
def Settles (crates : Crates) (s : Served) (r : WebhookRequest) : Prop :=
  ∀ provider verified, Provider.ofPath r.provider = some provider →
    verify crates.hmac provider (Headers.ofMap r.headers) r.body
      ((s.state.webhookSecret provider).map Utf8.encode) = .ok verified →
    (s.state.deliveries.check r.deliveryId r.now).1 = .fresh →
    ∃ event, Webhook.parse crates.fromSlice provider (Headers.ofMap r.headers) r.body verified
        = .ok event ∧
      (event.shouldTrigger → (s.state.repoMap event.repo).isSome → ∃ runId, r.stored = .ok runId)

end NoneLost

section Once

/-- The sender knows the secret of its provider, and the check was made on the body received. -/
def Authentic (crates : Crates) (secrets : Provider → Option String) (r : WebhookRequest) : Prop :=
  ∃ provider secret verified, Provider.ofPath r.provider = some provider ∧
    secrets provider = some secret ∧ secret ≠ "" ∧
    verify crates.hmac provider (Headers.ofMap r.headers) r.body (some (Utf8.encode secret))
      = .ok verified

/-- The readings of the clock, in order. -/
def readings (log : List Exchange) : List ℕ := log.filterMap Exchange.reading

/-- What the guard let through, latest first. -/
def passed (log : List Exchange) : List (String × ℕ) := (log.filterMap Exchange.letThrough).reverse

/-- The distinct deliveries the guard let through. -/
def fresh (log : List Exchange) : Finset String :=
  ((passed log).map (·.1)).toFinset

/-- Of two requests with one delivery id, less than `ttl` apart and with fewer than `capacity` other
deliveries let through between them, at most one reaches the queue. -/
def AtMostOnce (ttl capacity : ℕ) (log : List Exchange) : Prop :=
  ∀ before a between b after id, log = before ++ a :: between ++ b :: after →
    a.1.deliveryId = some id → b.1.deliveryId = some id → DeliveryGuard.identifies id →
    b.1.now - a.1.now < ttl → ((fresh between).erase id).card < capacity →
    ¬(a.enqueues ∧ b.enqueues)

end Once

section NoInfluence

/-- The path names a provider, and the request fails its check. -/
def failsVerify (crates : Crates) (secrets : Provider → Option String) (r : WebhookRequest) :
    Bool :=
  match Provider.ofPath r.provider with
  | none => false
  | some provider =>
    match verify crates.hmac provider (Headers.ofMap r.headers) r.body
        ((secrets provider).map Utf8.encode) with
    | .error _ => true
    | .ok _ => false

/-- One history becomes the other when requests that fail their check are deleted and inserted. -/
def SameButForged (crates : Crates) (secrets : Provider → Option String)
    (requests requests' : List WebhookRequest) : Prop :=
  Purge.purge (failsVerify crates secrets) requests
    = Purge.purge (failsVerify crates secrets) requests'

/-- The events `enqueue` was called with, in order. -/
def enqueueCalls (log : List Exchange) : List TriggerEvent := log.filterMap (·.2.enqueued)

/-- The requests that did not fail their check, and how they were handled. -/
def unforged (crates : Crates) (secrets : Provider → Option String) (log : List Exchange) :
    List Exchange :=
  log.filter fun e => !failsVerify crates secrets e.1

end NoInfluence

section Apart

/-- A delivery that its provider proved to have sent, with an id that the guard keeps. -/
structure Identified (crates : Crates) (secrets : Provider → Option String) (r : WebhookRequest)
    (provider : Provider) (id : String) : Prop where
  path : Provider.ofPath r.provider = some provider
  verified : ∃ verified, verify crates.hmac provider (Headers.ofMap r.headers) r.body
    ((secrets provider).map Utf8.encode) = .ok verified
  deliveryId : r.deliveryId = some id
  identifies : DeliveryGuard.identifies id

/-- No other provider sent a delivery with that id less than `ttl` ago. -/
def Unshared (crates : Crates) (s : Served) (r : WebhookRequest) : Prop :=
  ∀ provider id, Identified crates s.state.secrets r provider id →
    ∀ d ∈ s.log, ∀ other, Identified crates s.state.secrets d.1 other id →
      r.now - d.1.now < s.state.deliveries.ttl → other = provider

def isFor (provider : Provider) (r : WebhookRequest) : Bool :=
  Provider.ofPath r.provider = some provider

/-- What is answered as a repeat is one of a request for the same provider. -/
def OwnRepeats (log : List Exchange) : Prop :=
  Runs.Throughout (fun before e => e.isDuplicate →
    ∃ provider id, isFor provider e.1 ∧ e.1.deliveryId = some id ∧
      ∃ d ∈ before, isFor provider d.1 ∧ d.1.deliveryId = some id) log

/-- The distinct ids that were sent. -/
def ids (log : List Exchange) : Finset String := (log.filterMap (·.1.deliveryId)).toFinset

/-- The requests for a provider are handled as if there were no others. -/
def Separate (crates : Crates) (state : ServerState) (requests : List WebhookRequest)
    (log : List Exchange) : Prop :=
  ∀ provider, ∃ alone,
    Runs.exec (serve crates) ⟨state, []⟩ (requests.filter (isFor provider)) = some alone ∧
      alone.log = log.filter fun e => isFor provider e.1

end Apart

end Jetrun
