import Jetrun.Http
import Jetrun.Jrp

/-!
# The API trigger

A CI system hands work over under an API token and names the project and the pipeline that are to
run. What runs is looked up where the webhooks look it up: under the name of a repository.
-/

namespace Jetrun

def StoreError.toString : StoreError → String
  | sqlx e => "database error: " ++ e
  | migrate e => "migration failed: " ++ e
  | fs e => "filesystem error: " ++ e
  | notFound entity id => entity ++ " " ++ id ++ " not found"
  | conflict message => message
  | invalid message => "invalid input: " ++ message

def EnqueueError.toString : EnqueueError → String
  | unknownRepo repo => "no pipeline configured for repository " ++ repo
  | store e => e.toString

section Handler

/-- What the body is read into. -/
structure TriggerBody where
  project : String
  pipeline : String
  commitSha : Option String
  reference : Option String

/-- A request, and the identifier its run would get. -/
structure TriggerRequest where
  headers : HeaderMap
  body : List UInt8
  runId : String

/-- The response to a request, and the event that `enqueue` was called with if it was called. -/
structure Triggered where
  response : Response
  enqueued : Option TriggerEvent

def trim (s : String) : String :=
  let kept := s.toList.dropWhile Char.isWhitespace
  String.ofList (kept.reverse.dropWhile Char.isWhitespace).reverse

/-- The first header of that name counts, and it has to be text. -/
def bearer (headers : HeaderMap) : Option String :=
  match headers.find? fun field => toAsciiLowercase field.1 = "authorization" with
  | some (_, some value) => (stripPrefix "Bearer " value).map trim
  | _ => none

/-- The provider is a placeholder, and the two names become one. -/
def TriggerBody.event (req : TriggerBody) : TriggerEvent where
  provider := .gitHub
  deliveryId := none
  kind := .push (req.reference.getD "api")
  repo := req.project ++ "/" ++ req.pipeline
  commitSha := req.commitSha
  reference := req.reference
  actor := none
  bodyAuthenticated := false

/-- `authenticate` is the check of the token, `fromSlice` how JSON is read. -/
def trigger (authenticate : String → Except AuthError Unit)
    (fromSlice : List UInt8 → Except String TriggerBody) (state : ServerState)
    (r : TriggerRequest) : Triggered :=
  match bearer r.headers with
  | none => ⟨⟨401, .text "missing bearer token"⟩, none⟩
  | some token =>
    if Limits.maxTokenLen < token.utf8ByteSize then ⟨⟨400, .text "token too long"⟩, none⟩
    else
      match authenticate token with
      | .error _ => ⟨⟨401, .text "invalid token"⟩, none⟩
      | .ok () =>
        match fromSlice r.body with
        | .error e => ⟨⟨400, .text ("bad body: " ++ e)⟩, none⟩
        | .ok req =>
          match state.enqueue req.event (.ok r.runId) with
          | .ok runId => ⟨Ack.accepted runId, some req.event⟩
          | .error e => ⟨⟨400, .text e.toString⟩, some req.event⟩

end Handler

section Targets

/-- The project and the pipeline that `enqueue` finds for an event. -/
def ServerState.target (state : ServerState) (event : TriggerEvent) : Option (String × String) :=
  state.repoMap event.repo

/-- What a run was queued for. -/
def ServerState.queuedFor (state : ServerState) (t : Triggered) : Option (String × String) :=
  t.enqueued.bind state.target

/-- The arguments of a call of `map_repo`. -/
structure Mapping where
  repo : String
  project : String
  pipeline : String

/-- The state after these calls. -/
def ServerState.mapped (state : ServerState) (calls : List Mapping) : ServerState :=
  calls.foldl (fun state call => state.mapRepo call.repo call.project call.pipeline) state

/-- What the last call for a repository gave it. -/
def lastMapping (calls : List Mapping) (repo : String) : Option (String × String) :=
  (calls.reverse.find? fun call => call.repo = repo).map fun call => (call.project, call.pipeline)

/-- If a repository is mapped to the pair that the body names, a run is queued for it; and none is
queued for another pair. -/
def RunsNamed (state : ServerState) (req : TriggerBody) (t : Triggered) : Prop :=
  ((∃ repo, state.repoMap repo = some (req.project, req.pipeline)) →
      state.queuedFor t = some (req.project, req.pipeline)) ∧
    ∀ pair, state.queuedFor t = some pair → pair = (req.project, req.pipeline)

/-- The token is one that is accepted, and the body is understood. -/
structure Authenticated (authenticate : String → Except AuthError Unit)
    (fromSlice : List UInt8 → Except String TriggerBody) (r : TriggerRequest)
    (req : TriggerBody) : Prop where
  token : ∃ token, bearer r.headers = some token ∧ token.utf8ByteSize ≤ Limits.maxTokenLen ∧
    authenticate token = .ok ()
  body : fromSlice r.body = .ok req

end Targets

end Jetrun
