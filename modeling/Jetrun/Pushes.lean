import Jetrun.Webhook

/-!
# Pushes that delete, and pushes that come in batches

Each provider has its own way to say that a push deleted a ref. Bitbucket reports any number of
changes with one push; a change that leaves something behind says what under `new`.
-/

namespace Jetrun

namespace Json

def isNull : Json → Bool
  | .null => true
  | _ => false

def isObject : Json → Bool
  | .object _ => true
  | _ => false

end Json

namespace Webhook

section Deletion

/-- The commit that stands for none. -/
def allZeros (sha : String) : Prop := sha ≠ "" ∧ ∀ c ∈ sha.toList, c = '0'

/-- The changes of a push to Bitbucket. -/
def changes (j : Json) : Option (List Json) :=
  ((j.get "push").bind (·.get "changes")).bind Json.asArray

/-- The payload says that a ref was deleted. -/
def Deletes (j : Json) (event : String) : Provider → Prop
  | .gitHub => event = "push" ∧ j.follow ["deleted"] = some (.bool true) ∧
      ∃ sha, s j ["after"] = some sha ∧ allZeros sha
  | .gitLab => (event = "Push Hook" ∨ event = "Tag Push Hook") ∧
      j.follow ["checkout_sha"] = some .null ∧ ∃ sha, s j ["after"] = some sha ∧ allZeros sha
  | .bitbucket => event = "repo:push" ∧ ∃ items, changes j = some items ∧
      ∀ change ∈ items, change.get "new" = some .null

end Deletion

section Batch

/-- What a change leaves behind, by its name and its commit. -/
def target (new : Json) : String × Option String :=
  ((s new ["name"]).getD "", s new ["target", "hash"])

/-- What the changes of a batch leave behind. -/
def pushed (items : List Json) : List Json :=
  items.filterMap fun change => (change.get "new").filter Json.isObject

/-- The outcome is an event that starts a run for what a change left behind. -/
def Represented (outcome : Except WebhookError TriggerEvent) (new : Json) : Prop :=
  ∃ event, outcome = .ok event ∧ event.shouldTrigger ∧
    (event.kind = .push (target new).1 ∨ event.kind = .tag (target new).1) ∧
    event.commitSha = (target new).2

/-- What the first change leaves behind, if it does. -/
def firstTarget (items : List Json) : Option (String × Option String) :=
  ((items.head?.bind (·.get "new")).filter fun new => !new.isNull).map target

end Batch

end Webhook

end Jetrun
