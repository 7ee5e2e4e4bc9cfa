import Jetrun.Trigger

/-!
# What an API trigger runs

The two names of the body become the name of a repository, and what that repository is mapped to
runs. So the pipeline that is named runs only where the map gives it a repository of that very name;
elsewhere nothing runs, or something else.
-/

namespace Jetrun

variable {authenticate : String → Except AuthError Unit}
  {fromSlice : List UInt8 → Except String TriggerBody} {r : TriggerRequest} {req : TriggerBody}

section Maps

namespace ServerState

@[simp] theorem mapRepo_repoMap (state : ServerState) (repo project pipeline : String) :
    (state.mapRepo repo project pipeline).repoMap
      = Function.update state.repoMap repo (some (project, pipeline)) := rfl

/-- A repository is mapped as the last call for it says. -/
theorem mapped_repoMap (calls : List Mapping) (state : ServerState) (repo : String) :
    (state.mapped calls).repoMap repo = (lastMapping calls repo).or (state.repoMap repo) := by
  induction calls generalizing state with
  | nil => rfl
  | cons call calls ih =>
    have hlater : (state.mapped (call :: calls)).repoMap repo
        = (lastMapping calls repo).or
          ((state.mapRepo call.repo call.project call.pipeline).repoMap repo) := ih _
    rw [hlater, mapRepo_repoMap, Function.update_apply]
    unfold lastMapping
    rw [List.reverse_cons, List.find?_append]
    cases (calls.reverse.find? fun call => call.repo = repo) with
    | some last => rfl
    | none =>
      by_cases hrepo : repo = call.repo
      · simp [hrepo]
      · simp [hrepo, Ne.symm hrepo]

theorem new_mapped (deliveries : DeliveryGuard) (secrets : Provider → Option String)
    (calls : List Mapping) (repo : String) :
    ((new deliveries secrets).mapped calls).repoMap repo = lastMapping calls repo := by
  rw [mapped_repoMap]
  exact Option.or_none

/-- A run is queued exactly if the repository is mapped. -/
theorem enqueue_ok (state : ServerState) (event : TriggerEvent) (runId : String) :
    state.enqueue event (.ok runId) = match state.target event with
      | none => .error (.unknownRepo event.repo)
      | some _ => .ok runId := by
  unfold enqueue target
  cases state.repoMap event.repo <;> rfl

end ServerState

end Maps

section Outcome

/-- A request that is let in calls `enqueue` with its event, and is told how that went. -/
theorem trigger_authenticated (state : ServerState)
    (h : Authenticated authenticate fromSlice r req) :
    (trigger authenticate fromSlice state r).enqueued = some req.event ∧
      (trigger authenticate fromSlice state r).response =
        match state.target req.event with
        | none => ⟨400, .text (EnqueueError.unknownRepo req.event.repo).toString⟩
        | some _ => Ack.accepted r.runId := by
  obtain ⟨token, hbearer, hlen, haccept⟩ := h.token
  unfold trigger
  simp only [hbearer, if_neg (Nat.not_lt.2 hlen), haccept, h.body, state.enqueue_ok]
  cases state.target req.event <;> exact ⟨rfl, rfl⟩

theorem queuedFor_trigger (state : ServerState) (h : Authenticated authenticate fromSlice r req) :
    state.queuedFor (trigger authenticate fromSlice state r)
      = state.repoMap (req.project ++ "/" ++ req.pipeline) := by
  rw [ServerState.queuedFor, (trigger_authenticated state h).1]
  rfl

/-- Whoever calls `enqueue` was let in. -/
theorem authenticated_of_enqueued (state : ServerState) {event : TriggerEvent}
    (h : (trigger authenticate fromSlice state r).enqueued = some event) :
    ∃ req : TriggerBody, Authenticated authenticate fromSlice r req ∧ req.event = event := by
  unfold trigger at h
  cases hbearer : bearer r.headers with
  | none => simp [hbearer] at h
  | some token =>
    simp only [hbearer] at h
    by_cases hlen : Limits.maxTokenLen < token.utf8ByteSize
    · simp [hlen] at h
    rw [if_neg hlen] at h
    cases haccept : authenticate token with
    | error e => simp [haccept] at h
    | ok u =>
      cases hbody : fromSlice r.body with
      | error e => simp [haccept, hbody] at h
      | ok req =>
        refine ⟨req, ⟨⟨token, hbearer, Nat.not_lt.1 hlen, haccept⟩, hbody⟩, ?_⟩
        simp only [haccept, hbody] at h
        cases henqueue : state.enqueue req.event (.ok r.runId) <;>
          · rw [henqueue] at h
            exact Option.some.inj h

end Outcome

section Named

/-- Where a lookup ends that is to find a pair wherever some key has it, and nothing but it. -/
theorem finds_iff {κ β : Type} (lookup : κ → Option β) (key : κ) (wanted : β) :
    (((∃ k, lookup k = some wanted) → lookup key = some wanted) ∧
        ∀ b, lookup key = some b → b = wanted) ↔
      lookup key = some wanted ∨ lookup key = none ∧ ∀ k, lookup k ≠ some wanted := by
  constructor
  · rintro ⟨hfinds, honly⟩
    cases hkey : lookup key with
    | none =>
      refine .inr ⟨rfl, fun k hk => ?_⟩
      rw [hfinds ⟨k, hk⟩] at hkey
      cases hkey
    | some b => exact .inl (by rw [honly b hkey])
  · rintro (hkey | ⟨hkey, hnone⟩)
    · exact ⟨fun _ => hkey, fun b hb => Option.some.inj (hb.symm.trans hkey)⟩
    · refine ⟨fun ⟨k, hk⟩ => absurd hk (hnone k), fun b hb => ?_⟩
      rw [hkey] at hb
      cases hb

/-- The pipeline that is named runs exactly if the last mapping of the repository of that name gives
it, or nothing does. -/
theorem runsNamed_iff (deliveries : DeliveryGuard) (secrets : Provider → Option String)
    (calls : List Mapping) (h : Authenticated authenticate fromSlice r req) :
    let state := (ServerState.new deliveries secrets).mapped calls
    let last := lastMapping calls
    RunsNamed state req (trigger authenticate fromSlice state r) ↔
      last (req.project ++ "/" ++ req.pipeline) = some (req.project, req.pipeline) ∨
        last (req.project ++ "/" ++ req.pipeline) = none ∧
          ∀ repo, last repo ≠ some (req.project, req.pipeline) := by
  intro state last
  have hmap : state.repoMap = last := funext (ServerState.new_mapped deliveries secrets calls)
  rw [RunsNamed, queuedFor_trigger state h, hmap]
  exact finds_iff last _ _

def namesCi : List UInt8 := Utf8.encode "\x7b\"project\":\"web\",\"pipeline\":\"ci\"\x7d"

def namesWeb : List UInt8 := Utf8.encode "\x7b\"project\":\"acme\",\"pipeline\":\"web\"\x7d"

/-- A reader that knows two bodies. -/
def readNames (body : List UInt8) : Except String TriggerBody :=
  if body = namesCi then .ok ⟨"web", "ci", none, none⟩
  else if body = namesWeb then .ok ⟨"acme", "web", none, none⟩
  else .error "expected value"

def deploy : TriggerRequest := ⟨[("Authorization", some "Bearer jetr_k_s")], namesCi, "run1"⟩

/-- The only mapping gives `web` and `ci` a repository. Asked for them, the server refuses; asked
for `acme` and `web`, it runs them. -/
theorem trigger_confused :
    let state := (ServerState.new ⟨1, 1, []⟩ fun _ => none).mapped [⟨"acme/web", "web", "ci"⟩]
    let accept : String → Except AuthError Unit := fun _ => .ok ()
    ¬RunsNamed state ⟨"web", "ci", none, none⟩ (trigger accept readNames state deploy) ∧
      ¬RunsNamed state ⟨"acme", "web", none, none⟩ (trigger accept readNames state
        { deploy with body := namesWeb }) := by
  intro state accept
  refine ⟨fun h => ?_, fun h => ?_⟩
  · have hqueued := h.1 ⟨"acme/web", by decide⟩
    exact absurd hqueued (by decide +kernel)
  · exact absurd (h.2 ("web", "ci") (by decide +kernel)) (by decide)

/-- Under its own name the pipeline runs. -/
theorem trigger_named :
    let state := (ServerState.new ⟨1, 1, []⟩ fun _ => none).mapped [⟨"web/ci", "web", "ci"⟩]
    RunsNamed state ⟨"web", "ci", none, none⟩
      (trigger (fun _ => .ok ()) readNames state deploy) := by
  refine (runsNamed_iff _ _ [⟨"web/ci", "web", "ci"⟩] ?_).2 (.inl (by decide))
  exact ⟨⟨"jetr_k_s", by decide +kernel, by decide, rfl⟩, if_pos rfl⟩

end Named

end Jetrun
