import Jetrun.Webhook

/-!
# One occurrence, as each provider reports it

What happened at a repository, and the payloads the three providers send for it. A payload may hold
more than is listed here.
-/

namespace Jetrun

/-- What a pull request was. -/
inductive PullAction
  | opened
  | updated
deriving DecidableEq

/-- What happened at a repository. -/
inductive Change
  | branch (name : String)
  | tag (name : String)
  | pull (action : PullAction) (number : Fin (2 ^ 64)) (source target : String)

/-- A change, where it was, the commit it led to, and who made it. -/
structure Occurrence where
  repo : String
  sha : String
  actor : String
  change : Change

section Common

/-- The ref that was pushed; a pull request has none. -/
def Change.reference : Change → Option String
  | .branch name => some ("refs/heads/" ++ name)
  | .tag name => some ("refs/tags/" ++ name)
  | .pull .. => none

def PullAction.common : PullAction → String
  | .opened => "opened"
  | .updated => "synchronize"

def Change.kind : Change → EventKind
  | .branch name => .push name
  | .tag name => .tag name
  | .pull action number source target =>
    .pullRequest number action.common source (some target)

/-- What a parser is to read from a report. -/
def Occurrence.parsed (o : Occurrence) : Parsed :=
  ⟨o.change.kind, o.repo, some o.sha, o.change.reference, some o.actor⟩

end Common

namespace Webhook

section Reports

/-- What the event header says. -/
def eventName : Provider → Change → String
  | .gitHub, .branch _ | .gitHub, .tag _ => "push"
  | .gitHub, .pull .. => "pull_request"
  | .gitLab, .branch _ => "Push Hook"
  | .gitLab, .tag _ => "Tag Push Hook"
  | .gitLab, .pull .. => "Merge Request Hook"
  | .bitbucket, .branch _ | .bitbucket, .tag _ => "repo:push"
  | .bitbucket, .pull .opened .. => "pullrequest:created"
  | .bitbucket, .pull .updated .. => "pullrequest:updated"

/-- How a provider calls what a pull request was; for Bitbucket the event header says it. -/
def actionName : Provider → PullAction → String
  | .gitHub, .opened => "opened"
  | .gitHub, .updated => "synchronize"
  | .gitLab, .opened => "open"
  | .gitLab, .updated => "update"
  | .bitbucket, .opened => "created"
  | .bitbucket, .updated => "updated"

variable (o : Occurrence) (j : Json)

/-- A push of a ref to GitHub. -/
structure GitHubPush (reference : String) : Prop where
  repo : s j ["repository", "full_name"] = some o.repo
  ref : s j ["ref"] = some reference
  after : s j ["after"] = some o.sha
  pusher : s j ["pusher", "name"] = some o.actor

structure GitHubPull (action : PullAction) (number : Fin (2 ^ 64)) (source target : String) :
    Prop where
  repo : s j ["repository", "full_name"] = some o.repo
  action : s j ["action"] = some (actionName .gitHub action)
  number : u j ["number"] = some number
  source : s j ["pull_request", "head", "ref"] = some source
  sha : s j ["pull_request", "head", "sha"] = some o.sha
  target : s j ["pull_request", "base", "ref"] = some target
  sender : s j ["sender", "login"] = some o.actor

structure GitLabPush (reference : String) : Prop where
  repo : s j ["project", "path_with_namespace"] = some o.repo
  ref : s j ["ref"] = some reference
  sha : s j ["checkout_sha"] = some o.sha
  user : s j ["user_username"] = some o.actor

structure GitLabPull (action : PullAction) (number : Fin (2 ^ 64)) (source target : String) :
    Prop where
  repo : s j ["project", "path_with_namespace"] = some o.repo
  action : s j ["object_attributes", "action"] = some (actionName .gitLab action)
  number : u j ["object_attributes", "iid"] = some number
  source : s j ["object_attributes", "source_branch"] = some source
  sha : s j ["object_attributes", "last_commit", "id"] = some o.sha
  target : s j ["object_attributes", "target_branch"] = some target
  noUsername : j.get "user_username" = none
  user : s j ["user", "username"] = some o.actor

/-- A push of one branch or tag to Bitbucket. -/
structure BitbucketPush (type name : String) : Prop where
  repo : s j ["repository", "full_name"] = some o.repo
  change : ∃ change new, j.follow ["push", "changes"] = some (.array [change]) ∧
    change.get "new" = some new ∧ s new ["type"] = some type ∧ s new ["name"] = some name ∧
      s new ["target", "hash"] = some o.sha
  actor : s j ["actor", "nickname"] = some o.actor

structure BitbucketPull (number : Fin (2 ^ 64)) (source target : String) : Prop where
  repo : s j ["repository", "full_name"] = some o.repo
  number : u j ["pullrequest", "id"] = some number
  source : s j ["pullrequest", "source", "branch", "name"] = some source
  sha : s j ["pullrequest", "source", "commit", "hash"] = some o.sha
  target : s j ["pullrequest", "destination", "branch", "name"] = some target
  actor : s j ["actor", "nickname"] = some o.actor

/-- The payload is what the provider sends for the occurrence. -/
def Reports (provider : Provider) : Prop :=
  match provider, o.change with
  | .gitHub, .branch name => GitHubPush o j ("refs/heads/" ++ name)
  | .gitHub, .tag name => GitHubPush o j ("refs/tags/" ++ name)
  | .gitHub, .pull action number source target => GitHubPull o j action number source target
  | .gitLab, .branch name => GitLabPush o j ("refs/heads/" ++ name)
  | .gitLab, .tag name => GitLabPush o j ("refs/tags/" ++ name)
  | .gitLab, .pull action number source target => GitLabPull o j action number source target
  | .bitbucket, .branch name => BitbucketPush o j "branch" name
  | .bitbucket, .tag name => BitbucketPush o j "tag" name
  | .bitbucket, .pull _ number source target => BitbucketPull o j number source target

end Reports

section Rendering

variable (o : Occurrence)

def gitHubPayload : Json :=
  let push (reference : String) : List (String × Json) :=
    [("ref", .string reference), ("after", .string o.sha),
      ("repository", .object [("full_name", .string o.repo)]),
      ("pusher", .object [("name", .string o.actor)])]
  match o.change with
  | .branch name => .object (push ("refs/heads/" ++ name))
  | .tag name => .object (push ("refs/tags/" ++ name))
  | .pull action number source target =>
    .object [("action", .string (actionName .gitHub action)), ("number", .number (.u64 number)),
      ("pull_request", .object
        [("head", .object [("ref", .string source), ("sha", .string o.sha)]),
          ("base", .object [("ref", .string target)])]),
      ("repository", .object [("full_name", .string o.repo)]),
      ("sender", .object [("login", .string o.actor)])]

def gitLabPayload : Json :=
  let push (reference : String) : List (String × Json) :=
    [("ref", .string reference), ("checkout_sha", .string o.sha),
      ("project", .object [("path_with_namespace", .string o.repo)]),
      ("user_username", .string o.actor)]
  match o.change with
  | .branch name => .object (push ("refs/heads/" ++ name))
  | .tag name => .object (push ("refs/tags/" ++ name))
  | .pull action number source target =>
    .object [("object_attributes", .object
        [("iid", .number (.u64 number)), ("action", .string (actionName .gitLab action)),
          ("source_branch", .string source), ("target_branch", .string target),
          ("last_commit", .object [("id", .string o.sha)])]),
      ("project", .object [("path_with_namespace", .string o.repo)]),
      ("user", .object [("username", .string o.actor)])]

def bitbucketPayload : Json :=
  let push (type name : String) : Json :=
    .object [("changes", .array [.object [("new", .object
      [("type", .string type), ("name", .string name),
        ("target", .object [("hash", .string o.sha)])])]])]
  let around : List (String × Json) :=
    [("repository", .object [("full_name", .string o.repo)]),
      ("actor", .object [("nickname", .string o.actor)])]
  match o.change with
  | .branch name => .object (("push", push "branch" name) :: around)
  | .tag name => .object (("push", push "tag" name) :: around)
  | .pull _ number source target =>
    .object (("pullrequest", .object
      [("id", .number (.u64 number)),
        ("source", .object [("branch", .object [("name", .string source)]),
          ("commit", .object [("hash", .string o.sha)])]),
        ("destination", .object [("branch", .object [("name", .string target)])])]) :: around)

/-- A payload with nothing in it but what is read. -/
def render : Provider → Json
  | .gitHub => gitHubPayload o
  | .gitLab => gitLabPayload o
  | .bitbucket => bitbucketPayload o

end Rendering

end Webhook

end Jetrun
