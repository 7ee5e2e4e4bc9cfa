import Jetrun.Authorizer
import Jetrun.Lib.Recency
import Jetrun.Lib.Runs
import Jetrun.Webhook

/-!
# The webhook endpoint

A delivery is authenticated, then checked against the deliveries seen before, then parsed, and only
then may it start a run.
-/

namespace Jetrun

section Dedupe

/-- Whether a delivery is new or a repeat. -/
inductive Delivery
  | fresh
  | duplicate
  | unidentified
deriving DecidableEq

/-- The delivery ids seen lately. -/
abbrev DeliveryGuard := Recency.Window String

namespace DeliveryGuard

/-- One hour, in nanoseconds. -/
def defaultTtl : ℕ := 3600 * 10 ^ 9

def defaultCapacity : ℕ := 65536

def new (ttl capacity : ℕ) : DeliveryGuard := ⟨ttl, max capacity 1, []⟩

def identifies (id : String) : Bool := ¬ (id.utf8ByteSize = 0 ∨ 200 < id.utf8ByteSize)

/-- Record a delivery at `now` and report whether it is new. -/
def check (g : DeliveryGuard) (id : Option String) (now : ℕ) : Delivery × DeliveryGuard :=
  match id with
  | none => (.unidentified, g)
  | some id =>
    if identifies id then
      match g.touch now id with
      | (true, g) => (.duplicate, g)
      | (false, g) => (.fresh, g)
    else (.unidentified, g)

end DeliveryGuard

end Dedupe

section State

inductive EnqueueError
  | unknownRepo (repo : String)
  | store (e : StoreError)
deriving DecidableEq

/-- The secrets of the providers, and the project and pipeline of each repository. -/
structure ServerState where
  deliveries : DeliveryGuard
  secrets : Provider → Option String
  repoMap : String → Option (String × String)

namespace ServerState

def new (deliveries : DeliveryGuard) (secrets : Provider → Option String) : ServerState :=
  ⟨deliveries, secrets, fun _ => none⟩

def mapRepo (state : ServerState) (repo project pipeline : String) : ServerState :=
  { state with repoMap := Function.update state.repoMap repo (some (project, pipeline)) }

def webhookSecret (state : ServerState) (provider : Provider) : Option String :=
  state.secrets provider

/-- `stored` is how recording the run goes: its identifier, or why it could not be recorded. -/
def enqueue (state : ServerState) (event : TriggerEvent) (stored : Except StoreError String) :
    Except EnqueueError String :=
  match state.repoMap event.repo with
  | none => .error (.unknownRepo event.repo)
  | some _ => stored.mapError .store

end ServerState

end State

section Responses

inductive Body
  | text (s : String)
  | unknownProvider (name : String)
  | ack (status : String) (detail runId : Option String)
deriving DecidableEq

structure Response where
  status : ℕ
  body : Body
deriving DecidableEq

def Response.isSuccess (r : Response) : Bool := 200 ≤ r.status ∧ r.status < 300

namespace Ack

def accepted (runId : String) : Response := ⟨202, .ack "accepted" none (some runId)⟩

def ignored (detail : String) : Response := ⟨200, .ack "ignored" (some detail) none⟩

end Ack

end Responses

section Handler

/-- What the endpoint is built with: HMAC-SHA256 and the JSON parser. -/
structure Crates where
  hmac : Hmac
  fromSlice : List UInt8 → Except String Json

/-- A request, when the guard reads the clock for it, and how recording a run for it would go. -/
structure WebhookRequest where
  provider : String
  headers : HeaderMap
  body : List UInt8
  now : ℕ
  stored : Except StoreError String

def WebhookRequest.deliveryId (r : WebhookRequest) : Option String :=
  (Provider.ofPath r.provider).bind fun provider =>
    (Headers.ofMap r.headers).get provider.deliveryHeader

/-- The response to a request, what the guard said if it was asked, and the event that `enqueue` was
called with if it was called. -/
structure Handled where
  response : Response
  checked : Option Delivery
  enqueued : Option TriggerEvent
deriving DecidableEq

/-- The response to a failed check says nothing about why it failed. -/
def rejected : VerifyError → Response
  | .noSecretConfigured _ => ⟨500, .text "rejected"⟩
  | _ => ⟨401, .text "rejected"⟩

def refusal : WebhookError → Response
  | .missingHeader name => ⟨400, .text ("missing " ++ name)⟩
  | _ => ⟨400, .text "malformed payload"⟩

def ignoredDetail : EventKind → String
  | .ping => "ping acknowledged"
  | .ignored event => "event " ++ event ++ " is not configured to trigger"
  | .pullRequest _ action _ _ => "pull request action " ++ action ++ " does not trigger"
  | _ => "not configured to trigger"

def dispatch (state : ServerState) (event : TriggerEvent) (stored : Except StoreError String) :
    Response × Option TriggerEvent :=
  if event.shouldTrigger = false then (Ack.ignored (ignoredDetail event.kind), none)
  else
    match state.enqueue event stored with
    | .ok runId => (Ack.accepted runId, some event)
    | .error (.unknownRepo _) =>
      (Ack.ignored "no pipeline configured for this repository", some event)
    | .error (.store _) => (⟨500, .text "internal error"⟩, some event)

def webhook (crates : Crates) (state : ServerState) (r : WebhookRequest) : Handled × ServerState :=
  match Provider.ofPath r.provider with
  | none => (⟨⟨404, .unknownProvider r.provider⟩, none, none⟩, state)
  | some provider =>
    let lookup := Headers.ofMap r.headers
    match verify crates.hmac provider lookup r.body
        ((state.webhookSecret provider).map Utf8.encode) with
    | .error e => (⟨rejected e, none, none⟩, state)
    | .ok verified =>
      let deliveryId := lookup.get provider.deliveryHeader
      let (delivery, deliveries) := state.deliveries.check deliveryId r.now
      let state := { state with deliveries }
      if delivery = .duplicate then
        (⟨Ack.ignored "duplicate delivery", some delivery, none⟩, state)
      else
        match Webhook.parse crates.fromSlice provider lookup r.body verified with
        | .error e => (⟨refusal e, some delivery, none⟩, state)
        | .ok event =>
          let (response, enqueued) := dispatch state event r.stored
          (⟨response, some delivery, enqueued⟩, state)

end Handler

section Histories

/-- A request and how it was handled. -/
abbrev Exchange := WebhookRequest × Handled

/-- A server and everything it has handled so far, in order. -/
structure Served where
  state : ServerState
  log : List Exchange

def serve (crates : Crates) (s : Served) (r : WebhookRequest) : Option Served :=
  let (handled, state) := webhook crates s.state r
  some ⟨state, s.log ++ [(r, handled)]⟩

end Histories

end Jetrun
