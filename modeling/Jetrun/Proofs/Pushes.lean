import Jetrun.Pushes

/-!
# What the parsers make of a push

Only the parser for Bitbucket looks for a deletion, and it looks at the first change of a batch
alone. The others read the ref and the commit of a deletion as those of a push.
-/

namespace Jetrun

namespace Webhook

variable {fromSlice : List UInt8 → Except String Json} {provider : Provider} {headers : Headers}
  {body : List UInt8} {verified : Verified} {event : String} {j : Json}

/-- The parser of one provider. -/
def parserOf : Provider → String → Json → Except WebhookError Parsed
  | .gitHub => github
  | .gitLab => gitlab
  | .bitbucket => bitbucket

/-- Where the event header is there and the body is JSON, the outcome is that of the parser. -/
theorem parse_eq (hevent : headers.get provider.eventHeader = some event)
    (hjson : fromSlice body = .ok j) :
    parse fromSlice provider headers body verified = (parserOf provider event j).map fun p =>
      ⟨provider, headers.get provider.deliveryHeader, p.kind, p.repo, p.commitSha, p.reference,
        p.actor, verified.bodyAuthenticated⟩ := by
  unfold parse
  rw [hevent, hjson]
  cases provider with
  | gitHub =>
    unfold parserOf
    rcases github event j with e | p <;> rfl
  | gitLab =>
    unfold parserOf
    rcases gitlab event j with e | p <;> rfl
  | bitbucket =>
    unfold parserOf
    rcases bitbucket event j with e | p <;> rfl

theorem shouldTrigger_of_kind {e : TriggerEvent} {name : String}
    (h : e.kind = .push name ∨ e.kind = .tag name) : e.shouldTrigger = true := by
  unfold TriggerEvent.shouldTrigger
  rcases h with h | h <;> rw [h]

section Deletion

/-- GitHub and GitLab: no ref, no event. -/
theorem parserOf_no_ref (hdel : Deletes j event provider) (hprovider : provider ≠ .bitbucket)
    (href : s j ["ref"] = none) :
    parserOf provider event j = .error (.missingField "ref") := by
  cases provider with
  | gitHub =>
    obtain ⟨rfl, -⟩ := hdel
    change github "push" j = _
    unfold github
    rw [if_neg (by decide), if_pos rfl, href]
    rfl
  | gitLab =>
    obtain ⟨rfl | rfl, -⟩ := hdel
    · change gitlab "Push Hook" j = _
      unfold gitlab
      rw [if_pos rfl, href]
      rfl
    · change gitlab "Tag Push Hook" j = _
      unfold gitlab
      rw [if_neg (by decide), if_pos rfl, href]
      rfl
  | bitbucket => exact absurd rfl hprovider

/-- GitHub and GitLab: a ref that was deleted is read as one that was pushed. -/
theorem parserOf_ref (hdel : Deletes j event provider) (hprovider : provider ≠ .bitbucket)
    {reference : String} (href : s j ["ref"] = some reference) :
    ∃ p name, parserOf provider event j = .ok p ∧ (p.kind = .push name ∨ p.kind = .tag name) := by
  cases provider with
  | gitHub =>
    obtain ⟨rfl, -⟩ := hdel
    change ∃ p name, github "push" j = .ok p ∧ _
    unfold github
    rw [if_neg (by decide), if_pos rfl, href]
    refine ⟨_, shortRef reference, rfl, ?_⟩
    simp only []
    split_ifs
    · exact .inr rfl
    · exact .inl rfl
  | gitLab =>
    obtain ⟨rfl | rfl, -⟩ := hdel
    · change ∃ p name, gitlab "Push Hook" j = .ok p ∧ _
      unfold gitlab
      rw [if_pos rfl, href]
      exact ⟨_, _, rfl, .inl rfl⟩
    · change ∃ p name, gitlab "Tag Push Hook" j = .ok p ∧ _
      unfold gitlab
      rw [if_neg (by decide), if_pos rfl, href]
      exact ⟨_, _, rfl, .inr rfl⟩
  | bitbucket => exact absurd rfl hprovider

theorem firstChange_eq (j : Json) : firstChange j = (changes j).bind List.head? := rfl

/-- Bitbucket: a batch of deletions is ignored, or refused if it is empty. -/
theorem bitbucket_deletes (hdel : Deletes j event .bitbucket) {p : Parsed}
    (h : bitbucket event j = .ok p) : ∃ name, p.kind = .ignored name := by
  obtain ⟨rfl, items, hitems, hnull⟩ := hdel
  unfold bitbucket at h
  rw [if_neg (by decide), if_pos rfl, firstChange_eq, hitems] at h
  rcases items with _ | ⟨change, rest⟩
  · cases h
  · simp only [Option.bind_some, List.head?_cons, hnull change List.mem_cons_self] at h
    cases h
    exact ⟨_, rfl⟩

/-- A deletion starts no run if the provider is Bitbucket, or if the payload names no ref. -/
theorem deletion_ignored_iff (hevent : headers.get provider.eventHeader = some event)
    (hjson : fromSlice body = .ok j) (hdel : Deletes j event provider) :
    (∀ e, parse fromSlice provider headers body verified = .ok e → e.shouldTrigger = false)
      ↔ provider = .bitbucket ∨ s j ["ref"] = none := by
  rw [parse_eq hevent hjson]
  constructor
  · intro h
    by_contra hcon
    obtain ⟨hprovider, href⟩ := not_or.1 hcon
    obtain ⟨reference, href⟩ := Option.ne_none_iff_exists'.1 href
    obtain ⟨p, name, hp, hkind⟩ := parserOf_ref hdel hprovider href
    have hfalse := h _ (by rw [hp]; rfl)
    exact absurd (shouldTrigger_of_kind hkind) (by simpa using hfalse)
  · intro hcond e he
    rcases hp : parserOf provider event j with err | p
    · rw [hp] at he
      cases he
    rw [hp] at he
    cases he
    by_cases hprovider : provider = .bitbucket
    · subst hprovider
      obtain ⟨name, hname⟩ := bitbucket_deletes hdel hp
      unfold TriggerEvent.shouldTrigger
      simp only [hname]
    · rw [parserOf_no_ref hdel hprovider (hcond.resolve_left hprovider)] at hp
      cases hp

/-- A branch deleted at GitHub, as it is sent and as it is parsed. -/
def goneBody : List UInt8 :=
  Utf8.encode ("\x7b\"ref\":\"refs/heads/gone\",\"deleted\":true,\"after\":"
    ++ "\"0000000000000000000000000000000000000000\"\x7d")

def zeroSha : String := String.ofList (List.replicate 40 '0')

def goneJson : Json :=
  .object [("ref", .string "refs/heads/gone"), ("deleted", .bool true), ("after", .string zeroSha)]

def goneHeaders : Headers := ⟨[("x-github-event", "push")]⟩

def readGone (body : List UInt8) : Except String Json :=
  if body = goneBody then .ok goneJson else .error "EOF while parsing a value at line 1 column 0"

theorem zeroSha_allZeros : allZeros zeroSha := by
  have hlist : zeroSha.toList = List.replicate 40 '0' := String.toList_ofList
  refine ⟨fun h => ?_, fun c hc => ?_⟩
  · rw [h] at hlist
    cases hlist
  · exact List.eq_of_mem_replicate (hlist ▸ hc)

theorem goneJson_deletes : Deletes goneJson "push" .gitHub :=
  ⟨rfl, rfl, zeroSha, rfl, zeroSha_allZeros⟩

theorem readGone_goneBody : readGone goneBody = .ok goneJson := by
  unfold readGone
  rw [if_pos rfl]

/-- A deletion that is read as a push to the branch that is gone. -/
theorem deletion_triggers : Deletes goneJson "push" .gitHub ∧
    ∃ e, parse readGone .gitHub goneHeaders goneBody ⟨true⟩ = .ok e ∧ e.kind = .push "gone" ∧
      e.shouldTrigger := by
  have hparser : parserOf .gitHub "push" goneJson = .ok ⟨.push "gone", "",
      some zeroSha, some "refs/heads/gone", none⟩ := by
    decide +kernel
  have hevent : goneHeaders.get Provider.gitHub.eventHeader = some "push" := rfl
  have hparse : parse readGone .gitHub goneHeaders goneBody ⟨true⟩ = _ :=
    parse_eq hevent readGone_goneBody
  rw [hparser] at hparse
  exact ⟨goneJson_deletes, _, hparse, rfl, rfl⟩

theorem deletion_not_ignored :
    ¬∀ e, parse readGone .gitHub goneHeaders goneBody ⟨true⟩ = .ok e → e.shouldTrigger = false := by
  intro h
  have hcond := (deletion_ignored_iff rfl readGone_goneBody goneJson_deletes).1 h
  revert hcond
  decide

end Deletion

section Batch

variable {items : List Json}

/-- A first change that leaves something behind is what the event says. -/
theorem bitbucket_push_live {change new : Json} (hfirst : firstChange j = some change)
    (hnew : change.get "new" = some new) (hlive : new.isNull = false) :
    ∃ p, bitbucket "repo:push" j = .ok p ∧
      (p.kind = .push (target new).1 ∨ p.kind = .tag (target new).1) ∧
      p.commitSha = (target new).2 := by
  unfold bitbucket
  rw [if_neg (by decide), if_pos rfl, hfirst]
  simp only [hnew]
  by_cases htag : s new ["type"] = some "tag"
  · cases new with
    | null => cases hlive
    | _ =>
      simp only [if_pos htag]
      exact ⟨_, rfl, .inr rfl, rfl⟩
  · cases new with
    | null => cases hlive
    | _ =>
      simp only [if_neg htag]
      exact ⟨_, rfl, .inl rfl, rfl⟩

/-- A first change that leaves nothing behind, or none at all, starts no run. -/
theorem bitbucket_push_dead (hdead : ∀ change new, firstChange j = some change →
    change.get "new" = some new → new.isNull) {p : Parsed} (h : bitbucket "repo:push" j = .ok p) :
    ∃ name, p.kind = .ignored name := by
  unfold bitbucket at h
  rw [if_neg (by decide), if_pos rfl] at h
  rcases hfirst : firstChange j with _ | change
  · rw [hfirst] at h
    cases h
  rw [hfirst] at h
  rcases hnew : change.get "new" with _ | new
  · simp only [hnew] at h
    cases h
    exact ⟨_, rfl⟩
  have hnull := hdead change new hfirst hnew
  cases new with
  | null =>
    simp only [hnew] at h
    cases h
    exact ⟨_, rfl⟩
  | _ => cases hnull

theorem firstTarget_eq_some {t : String × Option String} : firstTarget items = some t ↔
    ∃ change new, items.head? = some change ∧ change.get "new" = some new ∧ new.isNull = false ∧
      target new = t := by
  unfold firstTarget
  rw [Option.map_eq_some_iff]
  constructor
  · rintro ⟨new, hnew, ht⟩
    obtain ⟨hnew, hlive⟩ := Option.filter_eq_some_iff.1 hnew
    obtain ⟨change, hchange, hget⟩ := Option.bind_eq_some_iff.1 hnew
    exact ⟨change, new, hchange, hget, by simpa using hlive, ht⟩
  · rintro ⟨change, new, hchange, hget, hlive, ht⟩
    refine ⟨new, Option.filter_eq_some_iff.2 ⟨?_, by simp [hlive]⟩, ht⟩
    rw [hchange]
    exact hget

/-- What a change left behind is represented if the first change says the same, and only then. -/
theorem represented_iff (hevent : headers.get Provider.bitbucket.eventHeader = some "repo:push")
    (hjson : fromSlice body = .ok j) (hitems : changes j = some items) (new : Json) :
    Represented (parse fromSlice .bitbucket headers body verified) new
      ↔ firstTarget items = some (target new) := by
  have hfirst : firstChange j = items.head? := by rw [firstChange_eq, hitems, Option.bind_some]
  rw [parse_eq hevent hjson, show parserOf .bitbucket "repo:push" j = bitbucket "repo:push" j from rfl]
  unfold Represented
  rcases ht : firstTarget items with _ | t
  · refine iff_of_false ?_ (by simp)
    rintro ⟨e, he, -, hkind, -⟩
    rcases hp : bitbucket "repo:push" j with err | p
    · rw [hp] at he
      cases he
    rw [hp] at he
    cases he
    obtain ⟨name, hname⟩ := bitbucket_push_dead (fun change first hchange hget => by
      by_contra hlive
      have := firstTarget_eq_some.2 ⟨change, first, hfirst ▸ hchange, hget, by simpa using hlive, rfl⟩
      rw [ht] at this
      cases this) hp
    simp [hname] at hkind
  · obtain ⟨change, first, hchange, hget, hlive, rfl⟩ := firstTarget_eq_some.1 ht
    obtain ⟨p, hp, hkind, hsha⟩ := bitbucket_push_live (hfirst.trans hchange) hget hlive
    rw [hp, Option.some.injEq]
    constructor
    · rintro ⟨e, he, -, hkind', hsha'⟩
      cases he
      refine Prod.ext ?_ (hsha.symm.trans hsha')
      rcases hkind with hkind | hkind <;> rcases hkind' with hkind' | hkind' <;>
        simp [hkind] at hkind' <;> exact hkind'
    · intro heq
      rw [← heq]
      exact ⟨_, rfl, shouldTrigger_of_kind hkind, hkind, hsha⟩

/-- Every push of a batch is represented if all of them say the same as the first change, and only
then. -/
theorem batch_represented_iff
    (hevent : headers.get Provider.bitbucket.eventHeader = some "repo:push")
    (hjson : fromSlice body = .ok j) (hitems : changes j = some items) :
    (∀ new ∈ pushed items, Represented (parse fromSlice .bitbucket headers body verified) new)
      ↔ ∀ new ∈ pushed items, firstTarget items = some (target new) :=
  forall₂_congr fun new _ => represented_iff hevent hjson hitems new

section Sample

/-- One branch pushed, as a change of a batch. -/
def branchChange (name hash : String) : Json :=
  .object [("new", .object [("type", .string "branch"), ("name", .string name),
    ("target", .object [("hash", .string hash)])])]

/-- Two branches pushed at once, as they are sent and as they are parsed. -/
def batchBody : List UInt8 :=
  Utf8.encode ("\x7b\"push\":\x7b\"changes\":["
    ++ "\x7b\"new\":\x7b\"type\":\"branch\",\"name\":\"main\","
    ++ "\"target\":\x7b\"hash\":\"aaaa\"\x7d\x7d\x7d,"
    ++ "\x7b\"new\":\x7b\"type\":\"branch\",\"name\":\"release\","
    ++ "\"target\":\x7b\"hash\":\"bbbb\"\x7d\x7d\x7d]\x7d\x7d")

def batchJson : Json :=
  .object [("push", .object [("changes",
    .array [branchChange "main" "aaaa", branchChange "release" "bbbb"])])]

def readBatch (body : List UInt8) : Except String Json :=
  if body = batchBody then .ok batchJson else .error "EOF while parsing a value at line 1 column 0"

def batchHeaders : Headers := ⟨[("x-event-key", "repo:push")]⟩

theorem readBatch_batchBody : readBatch batchBody = .ok batchJson := by
  unfold readBatch
  rw [if_pos rfl]

/-- The second branch of a batch is lost. -/
theorem batch_lost : ∃ new ∈ pushed [branchChange "main" "aaaa", branchChange "release" "bbbb"],
    target new = ("release", some "bbbb") ∧
      ¬Represented (parse readBatch .bitbucket batchHeaders batchBody ⟨true⟩) new := by
  refine ⟨_, List.mem_cons_of_mem _ List.mem_cons_self, rfl, fun h => ?_⟩
  have := (represented_iff rfl readBatch_batchBody rfl _).1 h
  revert this
  decide

theorem batch_not_represented :
    ¬∀ new ∈ pushed [branchChange "main" "aaaa", branchChange "release" "bbbb"],
      Represented (parse readBatch .bitbucket batchHeaders batchBody ⟨true⟩) new := by
  intro h
  have hall := (batch_represented_iff rfl readBatch_batchBody rfl).1 h _
    (List.mem_cons_of_mem _ List.mem_cons_self)
  revert hall
  decide

end Sample

end Batch

end Webhook

end Jetrun
