import Jetrun.Verify

/-!
# Webhook payloads

A verified payload is normalized into one event, whichever provider sent it. Reading JSON from bytes
is a parameter; what is read from a value is here.
-/

namespace Jetrun

section Json

/-- A number that is an unsigned 64-bit integer, or the text of any other. -/
inductive JsonNumber
  | u64 (n : Fin (2 ^ 64))
  | other (text : String)
deriving DecidableEq

inductive Json
  | null
  | bool (b : Bool)
  | number (n : JsonNumber)
  | string (s : String)
  | array (items : List Json)
  | object (fields : List (String × Json))

namespace Json

def get : Json → String → Option Json
  | .object fields, key => (fields.find? fun field => field.1 = key).map (·.2)
  | _, _ => none

def asStr : Json → Option String
  | .string s => some s
  | _ => none

def asU64 : Json → Option (Fin (2 ^ 64))
  | .number (.u64 n) => some n
  | _ => none

def asArray : Json → Option (List Json)
  | .array items => some items
  | _ => none

def follow : Json → List String → Option Json
  | v, [] => some v
  | v, p :: path => (v.get p).bind fun v => v.follow path

end Json

end Json

/-- What happened. -/
inductive EventKind
  | push (branch : String)
  | tag (name : String)
  | pullRequest (number : Fin (2 ^ 64)) (action sourceBranch : String)
      (targetBranch : Option String)
  | ping
  | ignored (event : String)
deriving DecidableEq

structure TriggerEvent where
  provider : Provider
  deliveryId : Option String
  kind : EventKind
  repo : String
  commitSha : Option String
  reference : Option String
  actor : Option String
  bodyAuthenticated : Bool
deriving DecidableEq

def TriggerEvent.shouldTrigger (event : TriggerEvent) : Bool :=
  match event.kind with
  | .push _ => true
  | .tag _ => true
  | .pullRequest _ action _ _ => action ∈ ["opened", "reopened", "synchronize", "updated"]
  | .ping => false
  | .ignored _ => false

inductive WebhookError
  | missingHeader (name : String)
  | badJson (message : String)
  | missingField (field : String)
deriving DecidableEq

/-- What the three parsers read from a payload. -/
structure Parsed where
  kind : EventKind
  repo : String
  commitSha : Option String
  reference : Option String
  actor : Option String
deriving DecidableEq

namespace Webhook

def s (v : Json) (path : List String) : Option String := (v.follow path).bind Json.asStr

def u (v : Json) (path : List String) : Option (Fin (2 ^ 64)) := (v.follow path).bind Json.asU64

/-- Strip `refs/heads/` or `refs/tags/`. -/
def shortRef (r : String) : String :=
  ((stripPrefix "refs/heads/" r).or (stripPrefix "refs/tags/" r)).getD r

/-- Strip `pre` as often as it is there. -/
def trimStartMatches (pre : String) : ℕ → String → String
  | 0, s => s
  | n + 1, s =>
    match stripPrefix pre s with
    | some rest => trimStartMatches pre n rest
    | none => s

def required (field : String) (v : Option String) : Except WebhookError String :=
  match v with
  | some s => .ok s
  | none => .error (.missingField field)

def ignoredEvent (event repo : String) : Parsed := ⟨.ignored event, repo, none, none, none⟩

def github (event : String) (j : Json) : Except WebhookError Parsed :=
  let repo := (s j ["repository", "full_name"]).getD ""
  if event = "ping" then .ok ⟨.ping, repo, none, none, none⟩
  else if event = "push" then do
    let reference ← required "ref" (s j ["ref"])
    let kind := if "refs/tags/".toList <+: reference.toList then .tag (shortRef reference)
      else .push (shortRef reference)
    pure ⟨kind, repo, s j ["after"], some reference, s j ["pusher", "name"]⟩
  else if event = "pull_request" then
    let action := (s j ["action"]).getD ""
    let number := ((u j ["number"]).or (u j ["pull_request", "number"])).getD 0
    .ok ⟨.pullRequest number action ((s j ["pull_request", "head", "ref"]).getD "")
        (s j ["pull_request", "base", "ref"]),
      repo, s j ["pull_request", "head", "sha"], none, s j ["sender", "login"]⟩
  else .ok (ignoredEvent event repo)

def gitlab (event : String) (j : Json) : Except WebhookError Parsed :=
  let repo := (s j ["project", "path_with_namespace"]).getD ""
  let actor := (s j ["user_username"]).or (s j ["user", "username"])
  if event = "Push Hook" then do
    let reference ← required "ref" (s j ["ref"])
    pure ⟨.push (shortRef reference), repo, (s j ["checkout_sha"]).or (s j ["after"]),
      some reference, actor⟩
  else if event = "Tag Push Hook" then do
    let reference ← required "ref" (s j ["ref"])
    pure ⟨.tag (shortRef reference), repo, (s j ["checkout_sha"]).or (s j ["after"]),
      some reference, actor⟩
  else if event = "Merge Request Hook" then
    let raw := (s j ["object_attributes", "action"]).getD ""
    let action := if raw = "open" then "opened" else if raw = "reopen" then "reopened"
      else if raw = "update" then "synchronize" else raw
    .ok ⟨.pullRequest ((u j ["object_attributes", "iid"]).getD 0) action
        ((s j ["object_attributes", "source_branch"]).getD "")
        (s j ["object_attributes", "target_branch"]),
      repo, s j ["object_attributes", "last_commit", "id"], none, actor⟩
  else .ok (ignoredEvent event repo)

/-- The first change of a push; the others are not read. -/
def firstChange (j : Json) : Option Json :=
  (((j.get "push").bind (·.get "changes")).bind Json.asArray).bind List.head?

def bitbucket (event : String) (j : Json) : Except WebhookError Parsed :=
  let repo := (s j ["repository", "full_name"]).getD ""
  let actor := (s j ["actor", "nickname"]).or (s j ["actor", "display_name"])
  if event = "diagnostics:ping" then .ok ⟨.ping, repo, none, none, none⟩
  else if event = "repo:push" then
    match firstChange j with
    | none => .error (.missingField "push.changes")
    | some change =>
      match change.get "new" with
      | none => .ok ⟨.ignored "repo:push (branch deleted)", repo, none, none, actor⟩
      | some .null => .ok ⟨.ignored "repo:push (branch deleted)", repo, none, none, actor⟩
      | some new =>
        let name := (s new ["name"]).getD ""
        let sha := s new ["target", "hash"]
        if s new ["type"] = some "tag" then
          .ok ⟨.tag name, repo, sha, some ("refs/tags/" ++ name), actor⟩
        else .ok ⟨.push name, repo, sha, some ("refs/heads/" ++ name), actor⟩
  else if "pullrequest:".toList <+: event.toList then
    let action := if event = "pullrequest:created" then "opened"
      else if event = "pullrequest:updated" then "synchronize"
      else trimStartMatches "pullrequest:" event.length event
    .ok ⟨.pullRequest ((u j ["pullrequest", "id"]).getD 0) action
        ((s j ["pullrequest", "source", "branch", "name"]).getD "")
        (s j ["pullrequest", "destination", "branch", "name"]),
      repo, s j ["pullrequest", "source", "commit", "hash"], none, actor⟩
  else .ok (ignoredEvent event repo)

def parse (fromSlice : List UInt8 → Except String Json) (provider : Provider) (headers : Headers)
    (body : List UInt8) (verified : Verified) : Except WebhookError TriggerEvent := do
  let event ← match headers.get provider.eventHeader with
    | some event => .ok event
    | none => .error (.missingHeader provider.eventHeader)
  let deliveryId := headers.get provider.deliveryHeader
  let json ← (fromSlice body).mapError .badJson
  let parsed ← match provider with
    | .gitHub => github event json
    | .gitLab => gitlab event json
    | .bitbucket => bitbucket event json
  pure ⟨provider, deliveryId, parsed.kind, parsed.repo, parsed.commitSha, parsed.reference,
    parsed.actor, verified.bodyAuthenticated⟩

end Webhook

end Jetrun
