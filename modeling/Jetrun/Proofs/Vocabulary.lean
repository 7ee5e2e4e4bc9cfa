import Jetrun.Proofs.Pushes
import Jetrun.Proofs.Verify
import Jetrun.Vocabulary

/-!
# The parsers agree

Whichever provider reports an occurrence, the parser reads the same from its payload, whatever else
stands in it.
-/

namespace Jetrun

namespace Webhook

variable {o : Occurrence} {j : Json} {name : String}

section Refs

theorem branch_not_tag (name : String) :
    ¬"refs/tags/".toList <+: ("refs/heads/" ++ name).toList := by
  simp

theorem tag_not_branch (name : String) :
    ¬"refs/heads/".toList <+: ("refs/tags/" ++ name).toList := by
  simp

theorem shortRef_branch (name : String) : shortRef ("refs/heads/" ++ name) = name := by
  rw [shortRef, stripPrefix_append]
  rfl

/-- A tag that is named like a branch stays a tag. -/
theorem shortRef_tag (name : String) : shortRef ("refs/tags/" ++ name) = name := by
  rw [shortRef, stripPrefix_append, stripPrefix, if_neg (tag_not_branch name)]
  rfl

end Refs

section Parsers

/-- A push of either kind of ref. -/
theorem github_push {reference : String} {kind : EventKind} (h : GitHubPush o j reference)
    (hkind : (if "refs/tags/".toList <+: reference.toList then EventKind.tag (shortRef reference)
      else .push (shortRef reference)) = kind) :
    github "push" j = .ok ⟨kind, o.repo, some o.sha, some reference, some o.actor⟩ := by
  unfold github
  rw [if_neg (by decide), if_pos rfl, h.repo, h.ref, h.after, h.pusher, ← hkind]
  rfl

theorem github_pull {action : PullAction} {number : Fin (2 ^ 64)} {source target : String}
    (h : GitHubPull o j action number source target) :
    github "pull_request" j = .ok ⟨Change.kind (.pull action number source target), o.repo,
      some o.sha, none, some o.actor⟩ := by
  unfold github
  rw [if_neg (by decide), if_neg (by decide), if_pos rfl, h.repo, h.action, h.number, h.source,
    h.sha, h.target, h.sender]
  cases action <;> rfl

theorem gitlab_push {reference name : String} (h : GitLabPush o j reference)
    (hname : shortRef reference = name) :
    gitlab "Push Hook" j = .ok ⟨.push name, o.repo, some o.sha, some reference, some o.actor⟩ ∧
      gitlab "Tag Push Hook" j
        = .ok ⟨.tag name, o.repo, some o.sha, some reference, some o.actor⟩ := by
  unfold gitlab
  rw [if_pos rfl, if_neg (by decide), if_pos rfl, h.repo, h.ref, h.sha, h.user, ← hname]
  exact ⟨rfl, rfl⟩

theorem gitlab_pull {action : PullAction} {number : Fin (2 ^ 64)} {source target : String}
    (h : GitLabPull o j action number source target) :
    gitlab "Merge Request Hook" j = .ok ⟨Change.kind (.pull action number source target), o.repo,
      some o.sha, none, some o.actor⟩ := by
  have hnone : s j ["user_username"] = none := by
    simp [s, Json.follow, h.noUsername]
  unfold gitlab
  rw [if_neg (by decide), if_neg (by decide), if_pos rfl, h.repo, h.action, h.number, h.source,
    h.sha, h.target, hnone, h.user]
  cases action <;> rfl

theorem bitbucket_push {type name : String} (h : BitbucketPush o j type name) :
    bitbucket "repo:push" j = .ok (if type = "tag"
      then ⟨.tag name, o.repo, some o.sha, some ("refs/tags/" ++ name), some o.actor⟩
      else ⟨.push name, o.repo, some o.sha, some ("refs/heads/" ++ name), some o.actor⟩) := by
  obtain ⟨change, new, hchanges, hnew, htype, hname, hsha⟩ := h.change
  have hfirst : firstChange j = some change := by
    have hpath : (j.get "push").bind (·.get "changes") = some (.array [change]) := by
      simpa [Json.follow] using hchanges
    rw [firstChange, hpath]
    rfl
  unfold bitbucket
  rw [if_neg (by decide), if_pos rfl, h.repo, hfirst, h.actor]
  simp only [hnew]
  cases new with
  | null => cases htype
  | _ =>
    simp only [htype, hname, hsha, Option.some.injEq]
    split_ifs <;> rfl

theorem bitbucket_pull {action : PullAction} {number : Fin (2 ^ 64)} {source target : String}
    (h : BitbucketPull o j number source target) :
    bitbucket (eventName .bitbucket (.pull action number source target)) j
      = .ok ⟨Change.kind (.pull action number source target), o.repo, some o.sha, none,
        some o.actor⟩ := by
  cases action with
  | opened =>
    change bitbucket "pullrequest:created" j = _
    unfold bitbucket
    rw [if_neg (by decide), if_neg (by decide), if_pos (by decide), h.repo, h.number, h.source,
      h.sha, h.target, h.actor]
    rfl
  | updated =>
    change bitbucket "pullrequest:updated" j = _
    unfold bitbucket
    rw [if_neg (by decide), if_neg (by decide), if_pos (by decide), h.repo, h.number, h.source,
      h.sha, h.target, h.actor]
    rfl

/-- What a parser reads from a report does not depend on who sent it. -/
theorem parserOf_reports {provider : Provider} (h : Reports o j provider) :
    parserOf provider (eventName provider o.change) j = .ok o.parsed := by
  obtain ⟨repo, sha, actor, change⟩ := o
  cases provider with
  | gitHub =>
    cases change with
    | branch name =>
      refine github_push h ?_
      rw [if_neg (branch_not_tag name), shortRef_branch]
      rfl
    | tag name =>
      refine github_push h ?_
      rw [if_pos (by simp), shortRef_tag]
      rfl
    | pull action number source target => exact github_pull h
  | gitLab =>
    cases change with
    | branch name => exact (gitlab_push h (shortRef_branch name)).1
    | tag name => exact (gitlab_push h (shortRef_tag name)).2
    | pull action number source target => exact gitlab_pull h
  | bitbucket =>
    cases change with
    | branch name => exact bitbucket_push h
    | tag name => exact bitbucket_push h
    | pull action number source target => exact bitbucket_pull h

end Parsers

section Agreement

theorem parsed_triggers (o : Occurrence) {event : TriggerEvent}
    (h : event.kind = o.parsed.kind) : event.shouldTrigger = true := by
  obtain ⟨repo, sha, actor, change⟩ := o
  unfold TriggerEvent.shouldTrigger
  rw [h]
  cases change with
  | branch name => rfl
  | tag name => rfl
  | pull action number source target => cases action <;> rfl

/-- A payload with nothing else in it is a report. -/
theorem reports_render (o : Occurrence) (provider : Provider) :
    Reports o (render o provider) provider := by
  obtain ⟨repo, sha, actor, change⟩ := o
  cases provider with
  | gitHub =>
    cases change with
    | branch name => exact ⟨rfl, rfl, rfl, rfl⟩
    | tag name => exact ⟨rfl, rfl, rfl, rfl⟩
    | pull action number source target => exact ⟨rfl, rfl, rfl, rfl, rfl, rfl, rfl⟩
  | gitLab =>
    cases change with
    | branch name => exact ⟨rfl, rfl, rfl, rfl⟩
    | tag name => exact ⟨rfl, rfl, rfl, rfl⟩
    | pull action number source target => exact ⟨rfl, rfl, rfl, rfl, rfl, rfl, rfl, rfl⟩
  | bitbucket =>
    cases change with
    | branch name => exact ⟨rfl, ⟨_, _, rfl, rfl, rfl, rfl, rfl⟩, rfl⟩
    | tag name => exact ⟨rfl, ⟨_, _, rfl, rfl, rfl, rfl, rfl⟩, rfl⟩
    | pull action number source target => exact ⟨rfl, rfl, rfl, rfl, rfl, rfl⟩

/-- Whatever happened, and whatever else the payloads and headers hold: what the three providers
report becomes one event, which starts a run. -/
theorem providers_agree {fromSlice : List UInt8 → Except String Json} (o : Occurrence)
    {headers : Provider → Headers} {body : Provider → List UInt8} (verified : Provider → Verified)
    (hevent : ∀ p, (headers p).get p.eventHeader = some (eventName p o.change))
    (hbody : ∀ p, ∃ j, fromSlice (body p) = .ok j ∧ Reports o j p) :
    ∃ event : Provider → TriggerEvent,
      (∀ p, parse fromSlice p (headers p) (body p) (verified p) = .ok (event p)) ∧
      (∀ p, (event p).kind = o.change.kind ∧ (event p).repo = o.repo ∧
        (event p).commitSha = some o.sha ∧ (event p).reference = o.change.reference ∧
        (event p).actor = some o.actor ∧ (event p).shouldTrigger = true) := by
  refine ⟨fun p => ⟨p, (headers p).get p.deliveryHeader, o.change.kind, o.repo, some o.sha,
    o.change.reference, some o.actor, (verified p).bodyAuthenticated⟩, fun p => ?_,
    fun p => ⟨rfl, rfl, rfl, rfl, rfl, parsed_triggers o rfl⟩⟩
  obtain ⟨j, hj, hreports⟩ := hbody p
  rw [parse_eq (hevent p) hj, parserOf_reports hreports]
  rfl

/-- A pull request from a branch that is named like a tag, the bodies told apart by their length. -/
theorem updated_pull_agreed :
    let o : Occurrence := ⟨"acme/web", "9f2c", "ana", .pull .updated 7 "refs/tags/x" "main"⟩
    let fromSlice : List UInt8 → Except String Json := fun bytes =>
      .ok (render o (if bytes = [] then .gitHub else if bytes = [0] then .gitLab else .bitbucket))
    let headers : Provider → Headers := fun p => ⟨[(p.eventHeader, eventName p o.change)]⟩
    let body : Provider → List UInt8 := fun p =>
      if p = .gitHub then [] else if p = .gitLab then [0] else [0, 0]
    ∃ event : Provider → TriggerEvent,
      (∀ p, parse fromSlice p (headers p) (body p) ⟨true⟩ = .ok (event p)) ∧
      (∀ p, (event p).kind = o.change.kind ∧ (event p).repo = o.repo ∧
        (event p).commitSha = some o.sha ∧ (event p).reference = o.change.reference ∧
        (event p).actor = some o.actor ∧ (event p).shouldTrigger = true) := by
  intro o fromSlice headers body
  refine providers_agree o (fun _ => ⟨true⟩) (fun p => ?_) (fun p => ?_)
  · cases p <;> rfl
  · cases p with
    | gitHub => exact ⟨_, rfl, reports_render o .gitHub⟩
    | gitLab => exact ⟨_, rfl, reports_render o .gitLab⟩
    | bitbucket => exact ⟨_, rfl, reports_render o .bitbucket⟩

end Agreement

end Webhook

end Jetrun
