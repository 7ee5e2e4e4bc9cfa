import Jetrun.Authorizer
import Jetrun.Lib.Runs

/-!
# Lookups and revocations side by side

Any number of lookups share one cache and one database with any number of writers. A lookup loads
the generation, reads the entry, queries the database and fills the cache; a writer commits a change
and then invalidates, which is an increment of the generation and after it the clearing of the
entries. Any step of one may come between two steps of another, and any time may pass.
-/

namespace Jetrun

/-- A state of the database, and when it became the current one. -/
structure Version where
  since : ℕ
  tables : Tables

/-- Where a lookup is in `permissions`. -/
inductive LookupPhase
  | loaded (key : CacheKey)
  | missed (key : CacheKey)
  | querying (key : CacheKey) (oldest : ℕ)
  | queried (key : CacheKey) (perms : Finset Permission)
  | done (answer : Except AuthzError (Finset Permission))

/-- A lookup under way. `began` and `bumps` are the time, and the number of increments so far, when
it loaded the generation. -/
structure LookupCall where
  principal : Principal
  scope : Scope
  genNow : ℕ
  began : ℕ
  bumps : ℕ
  phase : LookupPhase

inductive LookupStep
  | read
  | begin
  | finish (version : ℕ)
  | fail (e : StoreError)
  | insert

/-- Where a writer is; the number is that of the version it committed. -/
inductive WriterPhase
  | idle
  | committed (version : ℕ)
  | bumped

/-- `history` holds every version of the database, the current one last, and `bumps` the version
that each increment of the generation so far belongs to. -/
structure Shared where
  clock : ℕ
  history : List Version
  cache : DecisionCache
  bumps : List ℕ
  lookups : ℕ → Option LookupCall
  writers : ℕ → WriterPhase

inductive Event
  | wait (elapsed : ℕ)
  | load (who : ℕ) (principal : Principal) (scope : Scope)
  | move (who : ℕ) (a : LookupStep)
  | commit (writer : ℕ) (tables : Tables)
  | bump (writer : ℕ)
  | clear (writer : ℕ)

namespace Shared

def start (now : ℕ) (tables : Tables) : Shared :=
  ⟨now, [⟨now, tables⟩], .empty, [], fun _ => none, fun _ => .idle⟩

def setLookup (s : Shared) (who : ℕ) (call : LookupCall) : Shared :=
  { s with lookups := Function.update s.lookups who (some call) }

def setWriter (s : Shared) (writer : ℕ) (phase : WriterPhase) : Shared :=
  { s with writers := Function.update s.writers writer phase }

/-- A lookup computes its key and, if it has one, loads the generation. -/
def load (s : Shared) (principal : Principal) (scope : Scope) : LookupCall :=
  ⟨principal, scope, s.cache.generation, s.clock, s.bumps.length,
    match DecisionCache.key principal scope with
    | none => .done (.ok ∅)
    | some key => .loaded key⟩

/-- The next phase of a lookup and what it leaves in the cache. -/
def advance (s : Shared) (call : LookupCall) (a : LookupStep) :
    Option (LookupPhase × DecisionCache) :=
  match call.phase, a with
  | .loaded key, .read =>
    match s.cache.hit key call.genNow s.clock with
    | some held => some (.done (.ok held), s.cache)
    | none => some (.missed key, s.cache)
  | .missed key, .begin => some (.querying key (s.history.length - 1), s.cache)
  | .querying key oldest, .finish version =>
    -- a query sees every commit that was there when it began, and maybe later ones
    match s.history[version]? with
    | some v =>
      if oldest ≤ version then
        some (.queried key (v.tables.queryPermissions call.principal call.scope), s.cache)
      else none
    | none => none
  | .querying _ _, .fail e => some (.done (.error (.store e)), s.cache)
  | .queried key perms, .insert =>
    some (.done (.ok perms), s.cache.fill key ⟨perms, call.genNow, s.clock⟩)
  | _, _ => none

def step (s : Shared) : Event → Option Shared
  | .wait elapsed => some { s with clock := s.clock + elapsed }
  | .load who principal scope =>
    match s.lookups who with
    | some _ => none
    | none => some (s.setLookup who (s.load principal scope))
  | .move who a =>
    match s.lookups who with
    | none => none
    | some call =>
      match s.advance call a with
      | none => none
      | some (phase, cache) => some { s.setLookup who { call with phase } with cache }
  | .commit writer tables =>
    match s.writers writer with
    | .idle => some { s.setWriter writer (.committed s.history.length) with
        history := s.history ++ [⟨s.clock, tables⟩] }
    | _ => none
  | .bump writer =>
    match s.writers writer with
    | .committed version => some { s.setWriter writer .bumped with
        cache := s.cache.bump, bumps := s.bumps ++ [version] }
    | _ => none
  | .clear writer =>
    match s.writers writer with
    | .bumped => some { s.setWriter writer .idle with cache := s.cache.clear }
    | _ => none

end Shared

def Event.isIncrement : Event → Bool
  | .bump _ => true
  | _ => false

/-- Every lookup is for a scope of the principal's organization, which the authorizer checks before
it asks the cache, and a pipeline is always presented with the project that is its home. -/
def Presented (home : PipelineId → ProjectId) (principal : Principal) (scope : Scope) : Prop :=
  scope.orgId = principal.org ∧
    match scope with
    | .pipeline _ project pipeline => project = home pipeline
    | _ => True

end Jetrun
