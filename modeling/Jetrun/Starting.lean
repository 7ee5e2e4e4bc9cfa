import Jetrun.Concurrent
import Jetrun.Deliveries
import Jetrun.Trigger

/-!
# Starting the control plane

`jetrun serve` reads its command line into what the two listeners share: a secret for each provider
that is given one, and the pipeline of each repository that is mapped. How the database opens, how
it is bootstrapped and how an address is read are parameters.
-/

namespace Jetrun

/-- The arguments of `jetrun serve`. -/
structure ServeArgs where
  httpPort : Fin (2 ^ 16)
  jrpPort : Fin (2 ^ 16)
  bind : String
  db : String
  githubSecret : Option String
  gitlabSecret : Option String
  bitbucketSecret : Option String
  maps : List String

inductive ServeError
  | store (e : StoreError)
  | map (m : String)
  | mapTarget (target : String)
  | addr (e : String)

/-- `debug` is how a string is quoted. -/
def ServeError.toString (debug : String → String) : ServeError → String
  | store e => e.toString
  | map m => "--map expects REPO=PROJECT/PIPELINE, got " ++ debug m
  | mapTarget target => "--map target expects PROJECT/PIPELINE, got " ++ debug target
  | addr e => e

/-- What stands before the first `sep`, and what stands after it. -/
def splitOnce (sep : Char) (s : String) : Option (String × String) :=
  if sep ∈ s.toList then
    some (String.ofList (s.toList.takeWhile (· ≠ sep)),
      String.ofList (s.toList.dropWhile (· ≠ sep)).tail)
  else none

section Secrets

def ServeArgs.secret (args : ServeArgs) : Provider → Option String
  | .gitHub => args.githubSecret
  | .gitLab => args.gitlabSecret
  | .bitbucket => args.bitbucketSecret

/-- An empty secret is no secret. -/
def setSecret (secrets : Provider → Option String) (provider : Provider) :
    Option String → Provider → Option String
  | some s => if s = "" then secrets else Function.update secrets provider (some s)
  | none => secrets

def ServeArgs.secrets (args : ServeArgs) : Provider → Option String :=
  [Provider.gitHub, .gitLab, .bitbucket].foldl
    (fun secrets provider => setSecret secrets provider (args.secret provider)) fun _ => none

end Secrets

section Maps

def readMap (state : ServerState) (m : String) : Except ServeError ServerState :=
  match splitOnce '=' m with
  | none => .error (.map m)
  | some (repo, target) =>
    match splitOnce '/' target with
    | none => .error (.mapTarget target)
    | some (project, pipeline) => .ok (state.mapRepo repo project pipeline)

def readMaps : ServerState → List String → Except ServeError ServerState
  | state, [] => .ok state
  | state, m :: ms =>
    match readMap state m with
    | .error e => .error e
    | .ok state => readMaps state ms

/-- The argument that says so. -/
def Mapping.text (call : Mapping) : String :=
  call.repo ++ "=" ++ call.project ++ "/" ++ call.pipeline

/-- The argument ends each name where it is to end. A pipeline may have any name. -/
def Mapping.Plain (call : Mapping) : Prop := '=' ∉ call.repo.toList ∧ '/' ∉ call.project.toList

/-- Why an argument is no map, if it is none. -/
inductive Unmapped : String → ServeError → Prop
  | repo {m : String} (h : '=' ∉ m.toList) : Unmapped m (.map m)
  | target {repo target : String} (hrepo : '=' ∉ repo.toList) (h : '/' ∉ target.toList) :
      Unmapped (repo ++ "=" ++ target) (.mapTarget target)

end Maps

/-- What starting meets outside the process. -/
structure Host (α : Type) where
  openDb : String → Except StoreError Unit
  bootstrap : Except StoreError Unit
  parseAddr : String → Except String α

/-- The state that the listeners share, and where they listen. -/
structure Started (α : Type) where
  state : ServerState
  httpAddr : α
  jrpAddr : α

def ServeArgs.newState (args : ServeArgs) : ServerState :=
  .new (.new DeliveryGuard.defaultTtl DeliveryGuard.defaultCapacity) args.secrets

def ServeArgs.start {α : Type} (args : ServeArgs) (host : Host α) :
    Except ServeError (Started α) := do
  (host.openDb args.db).mapError .store
  host.bootstrap.mapError .store
  let state ← readMaps args.newState args.maps
  let httpAddr ← (host.parseAddr (args.bind ++ ":" ++ toString args.httpPort)).mapError .addr
  let jrpAddr ← (host.parseAddr (args.bind ++ ":" ++ toString args.jrpPort)).mapError .addr
  pure ⟨state, httpAddr, jrpAddr⟩

end Jetrun
