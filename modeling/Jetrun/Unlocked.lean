import Jetrun.Lib.Aging
import Jetrun.Racing

/-!
# A collection beside the writers

No lock keeps a collection and the inserts of a store apart. A collection marks what its roots lead
to, one read after the other, takes the time, and goes through the listings of the store. It looks
at the age of a file in one step and removes the file in another, and any insert may make its next
system call between two of its steps. What a listing yields is up to the system. The clock goes on
in steps of its own, and a file keeps the time at which it was last written to.
-/

namespace Jetrun

/-- How far an insert is with its object: it has yet to look for it, has found nothing and nothing
in the staging area is its own, writes through a descriptor or clones into it, has written it all,
is about to rename it into place, or clears up after that failed. -/
inductive Stage
  | looking
  | missed
  | writing (fd : ℕ)
  | cloning (fd : ℕ)
  | written
  | committing
  | cleaning
  | ended
deriving DecidableEq

namespace Stage

/-- Between its look and its rename. -/
def pending : Stage → Bool
  | missed | writing _ | cloning _ | written | committing => true
  | _ => false

/-- What stands at its staging path, it has written to, or another insert after it. -/
def staged : Stage → Bool
  | writing _ | cloning _ | written | committing => true
  | _ => false

def descriptor : Stage → Option ℕ
  | writing fd | cloning fd => some fd
  | _ => none

/-- The inode that is written to in a step from the one to the other. -/
def touched : Stage → Stage → Option ℕ
  | cloning fd, written => some fd
  | _, after => after.descriptor

end Stage

def Phase.stage : Phase → Stage
  | check => .looking
  | create => .missed
  | write fd _ => .writing fd
  | sync | stat | chmod | fanout => .written
  | commit => .committing
  | cleanup _ => .cleaning
  | syncDir | done _ => .ended

def Placing.stage : Placing → Stage
  | check => .looking
  | clone _ dst => .cloning dst
  | copy _ dst _ | stream _ dst _ => .writing dst
  | _ => .missed

/-- The digest of its object, once it is known, and how far the insert is. -/
def Put.stage : Put → Option (Digest × Stage)
  | content call => some (call.digest, call.phase.stage)
  | file _ (.placing d _ p) => some (d, p.stage)
  | file _ (.finish d _ p) => some (d, p.stage)
  | file _ _ => none

/-- How far an insert is; one without an object has yet to begin, or is over. -/
def Put.now (p : Put) : Stage := (p.stage.map Prod.snd).getD .ended

/-- What the listing of `objects/` yields: something that is no directory, or a directory and
whether it can be listed. -/
inductive FanReply
  | other
  | opened (name : String) (fault : Option IoError)

/-- What a sweep goes by, and the counters so far. -/
structure Collector where
  live : Finset Digest
  minAge : ℕ
  now : ℕ
  stats : GcStats

/-- What a collection does next. -/
inductive Collection
  | marking (minAge : ℕ) (s : Marking.State Digest)
  | sweeping (s : Collector)
  | listing (s : Collector) (fanPath : Path)
  | removing (s : Collector) (fanPath : Path) (entry : DirEntry) (size : ℕ)
  | done (result : Except CasError GcStats)

def Collection.isDone : Collection → Bool
  | done _ => true
  | _ => false

/-- A step of a collection, with what the system answers; a listing may have come to its end. -/
inductive GcMove
  | mark (fault : Option IoError)
  | openObjects (fault : Option IoError)
  | fan (yield : Option (Except IoError FanReply))
  | entry (yield : Option (Except IoError DirEntry))
  | unlink

namespace ObjectStore

variable (b3 : Blake3) (st : ObjectStore)

/-- What a read of the object finds, which is one step here. -/
def found (fs : Files) (fault : Option IoError) (d : Digest) : Except CasError Tree :=
  st.treeOf b3 d <| match fault, fs.file (st.objectPath d) with
    | some e, _ => .error e
    | none, some i => .ok (fs.inode i).content
    | none, none => .error .notFound

/-- What the collection takes it to refer to. -/
def foundRefs (fs : Files) (fault : Option IoError) : Marking.Refs Digest := fun d =>
  match st.found b3 fs fault d with
  | .ok tree => some (tree.blobDigests, tree.subtreeDigests)
  | .error _ => none

end ObjectStore

namespace Collection

variable (b3 : Blake3) (st : ObjectStore)

def nextFan (s : Collector) : Option (Except IoError FanReply) → Collection
  | none => .done (.ok s.stats)
  | some (.error e) => .done (.error (.io "read objects dir entry" st.objects e))
  | some (.ok .other) => .sweeping s
  | some (.ok (.opened name (some e))) =>
    .done (.error (.io "read fanout" (st.objects.push name) e))
  | some (.ok (.opened name none)) => .listing s (st.objects.push name)

/-- One file of a fan-out directory: kept, spared or condemned. -/
def nextEntry (fs : Files) (modified : ℕ → ℕ) (s : Collector) (fanPath : Path) :
    Option (Except IoError DirEntry) → Collection
  | none => .sweeping s
  | some (.error e) => .done (.error (.io "read fanout entry" fanPath e))
  | some (.ok entry) =>
    let path := fanPath.push entry.name
    match ObjectStore.fileDigest path with
    | none => .listing s fanPath
    | some digest =>
      if digest ∈ s.live then .listing s fanPath
      else match (if entry.metadata then fs.file path else none) with
        | none => .listing s fanPath
        | some i =>
          let age := if entry.modified then s.now - modified i else 0
          if age < s.minAge then
            .listing { s with stats.sparedYoung := s.stats.sparedYoung + 1 } fanPath
          else .removing s fanPath entry (fs.inode i).content.length

def remove (fs : Files) (s : Collector) (fanPath : Path) (entry : DirEntry) (size : ℕ) :
    Files × Collection :=
  let path := fanPath.push entry.name
  match entry.unlink, fs.unlink path with
  | none, some fs =>
    (fs, .listing { s with
      stats := { s.stats with
        deleted := s.stats.deleted + 1
        bytesFreed := s.stats.bytesFreed + size } } fanPath)
  | none, none | some .notFound, _ => (fs, .listing s fanPath)
  | some e, _ => (fs, .done (.error (.io "unlink object" path e)))

/-- The next step of a collection, at this time. -/
def advance (fs : Files) (modified : ℕ → ℕ) (clock : ℕ) :
    Collection → GcMove → Option (Files × Collection)
  | .marking minAge ⟨live, d :: queue⟩, .mark fault =>
    -- an object that is marked by now is not read again, whatever a read would have found
    let refs := st.foundRefs b3 fs fault
    some (fs, .marking minAge (Marking.markStep refs ⟨live, d :: queue⟩))
  | .marking minAge ⟨live, []⟩, .openObjects fault =>
    let stats : GcStats := { live := live.card, deleted := 0, bytesFreed := 0, sparedYoung := 0 }
    match fault with
    | some e => some (fs, .done (.error (.io "read objects dir" st.objects e)))
    | none => some (fs, .sweeping ⟨live, minAge, clock, stats⟩)
  | .sweeping s, .fan yield => some (fs, nextFan st s yield)
  | .listing s fanPath, .entry yield => some (fs, nextEntry fs modified s fanPath yield)
  | .removing s fanPath entry size, .unlink => some (remove fs s fanPath entry size)
  | _, _ => none

end Collection

/-- A store in use. The last two fields are for the record: when each insert looked for its object,
and which objects were renamed into place, and when. -/
structure Unlocked where
  puts : Puts
  modified : ℕ → ℕ
  clock : ℕ
  collections : List Collection
  looked : ℕ → ℕ
  placed : List (Digest × ℕ)

namespace Unlocked

variable (b3 : Blake3) (st : ObjectStore) (privileged : Bool)

/-- Time goes on, an insert or a collection begins, or makes its next step. -/
inductive Turn
  | tick (elapsed : ℕ)
  | start (who : ℕ) (i : Insert)
  | move (who : ℕ) (a : Answer)
  | collect (roots : List Digest) (minAge : ℕ)
  | sweep (which : ℕ) (m : GcMove)

def stageOf (s : Unlocked) (who : ℕ) : Option (Digest × Stage) := (s.puts.puts who).bind Put.stage

/-- An inode is written to now. -/
def touch (modified : ℕ → ℕ) (clock : ℕ) : Option ℕ → ℕ → ℕ
  | some i => Function.update modified i clock
  | none => modified

/-- The state after a step of the insert `who`, which leaves it as `p`. -/
def moved (s : Unlocked) (who : ℕ) (fs : Files) (caps : Capabilities) (p : Put) : Unlocked :=
  let s' : Unlocked := { s with puts := ⟨fs, caps, Function.update s.puts.puts who (some p)⟩ }
  match s.stageOf who with
  | none => s'
  | some (d, before) =>
    let after := p.now
    { s' with
      modified := touch s.modified s.clock (before.touched after)
      looked := if before = .looking then Function.update s.looked who s.clock else s.looked
      placed := if before = .committing ∧ after ≠ .cleaning then (d, s.clock) :: s.placed
        else s.placed }

def turn (s : Unlocked) : Turn → Option Unlocked
  | .tick elapsed => some { s with clock := s.clock + elapsed }
  | .start who i =>
    match s.puts.puts who with
    | some _ => none
    | none => some { s with
        puts := { s.puts with puts := Function.update s.puts.puts who (some (Puts.begin b3 i)) } }
  | .move who a => do
    let p ← s.puts.puts who
    let (fs, caps, p) ← Puts.advance b3 st privileged s.puts.fs s.puts.caps a p
    pure (s.moved who fs caps p)
  | .collect roots minAge =>
    some { s with collections := s.collections ++ [.marking minAge ⟨∅, roots.reverse⟩] }
  | .sweep which m => do
    let c ← s.collections[which]?
    let (fs, c) ← c.advance b3 st s.puts.fs s.modified s.clock m
    pure { s with puts := { s.puts with fs }, collections := s.collections.set which c }

section Orderly

/-- No look of an insert fails by itself, and from its look on an insert takes `limit` at most.
Collections are made one after the other, and none of them removes what is younger than `age`. -/
def Prompt (limit age : ℕ) (s : Unlocked) : Turn → Prop
  | .move who a => ∀ x ∈ s.stageOf who, (x.2 = .looking → a.fault = none) ∧
    (x.2.pending = true → s.clock ≤ s.looked who + limit)
  | .collect _ minAge => age ≤ minAge ∧ ∀ c ∈ s.collections, c.isDone = true
  | _ => True

instance (limit age : ℕ) (s : Unlocked) : ∀ t, Decidable (Prompt limit age s t)
  | .move who _ => inferInstanceAs (Decidable (∀ x ∈ s.stageOf who, _))
  | .collect .. => inferInstanceAs (Decidable (_ ∧ ∀ c ∈ s.collections, _))
  | .tick _ | .start .. | .sweep .. => .isTrue trivial

end Orderly

section Places

end Places

end Unlocked

end Jetrun
