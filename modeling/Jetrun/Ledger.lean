import Jetrun.FileTree
import Jetrun.Lib.Runs

/-!
# A store in use

The operations of a store one after the other, and in between what others do to the rest of its
volume. A ledger of the run says what was put so far, which puts answered for an object that no
collection has removed since, and what the ingests have returned.
-/

namespace Jetrun

open Volumes Traced

inductive Op
  | putBytes (bytes : List UInt8)
  | putFile (path : Path)
  | putTree (tree : Tree)
  | ingestDir (stack : ℕ) (dir : Path)
  | materializeTree (intent : Intent) (d : Digest) (dest : Path)
  | gc (turns : ℕ) (roots : List Digest) (minAge : ℕ)
  /-- Others leave this volume. -/
  | others (v : Volume String)

structure Ledger where
  session : Link.Session Machine
  asked : List Request
  answered : List Request
  ingested : List Digest

namespace StoreEvent

def puts (trace : List StoreEvent) : List Request :=
  trace.filterMap fun
    | put r => some r
    | _ => none

def answers (trace : List StoreEvent) : List Request :=
  trace.filterMap fun
    | stored r => some r
    | _ => none

end StoreEvent

namespace Ledger

variable (b3 : Blake3) (st : ObjectStore)

def new (session : Link.Session Machine) : Ledger := ⟨session, [], [], []⟩

def volume (s : Ledger) : Volume String := s.session.os.volume

/-- The ledger after an operation that ended like this. -/
def enter {α : Type} (s : Ledger) (o : Outcome (Link.Session Machine) Stop StoreEvent α) : Ledger where
  session := o.world
  asked := s.asked ++ StoreEvent.puts o.trace
  answered := s.answered ++ StoreEvent.answers o.trace
  ingested := s.ingested

/-- After an ingest: its digest is known from here on. -/
def root (s : Ledger) (result : Except Stop Digest) : Ledger :=
  match result with
  | .ok d => { s with ingested := d :: s.ingested }
  | .error _ => s

/-- After a collection: what it removed is no longer answered for. -/
def forget (s : Ledger) : Ledger :=
  { s with answered := s.answered.filter fun r =>
      (s.volume.find (st.objectPath (r.digest b3))).isSome }

def after (s : Ledger) : Op → Ledger
  | .putBytes bytes => s.enter (Storing.putBytes b3 st bytes s.session)
  | .putFile path => s.enter (Storing.putFile b3 st path s.session)
  | .putTree tree => s.enter (Storing.putTree b3 st tree s.session)
  | .ingestDir stack dir =>
    let o := Storing.ingestDir b3 st stack dir s.session
    (s.enter o).root o.result
  | .materializeTree intent d dest => s.enter (Storing.materializeTree b3 st intent d dest s.session)
  | .gc turns roots minAge => (s.enter (Storing.gc b3 st turns roots minAge s.session)).forget b3 st
  | .others v => { s with session := { s.session with os := s.session.os.after v } }

def step (s : Ledger) (op : Op) : Option Ledger := some (s.after b3 st op)

section Puts

/-- The digest that an operation returns, if it is a put and succeeds. -/
def returned (s : Ledger) : Op → Option Digest
  | .putBytes bytes => (Storing.putBytes b3 st bytes s.session).result.toOption
  | .putFile path => (Storing.putFile b3 st path s.session).result.toOption.map Prod.fst
  | .putTree tree => (Storing.putTree b3 st tree s.session).result.toOption
  | .ingestDir stack dir => (Storing.ingestDir b3 st stack dir s.session).result.toOption
  | _ => none

/-- What a put is given to store. -/
def Given (s : Ledger) : Op → Request → Prop
  | .putBytes bytes, r => r = .bytes bytes
  | .putFile path, r => ∃ i, s.volume.find path = some (.file i) ∧
    r = .bytes (s.volume.inode i).content
  | .putTree tree, r => r = .tree tree
  | .ingestDir stack dir, r => ∃ t, Describes b3 stack (view s.volume dir) t ∧ r = .tree t
  | _, _ => False

end Puts

end Ledger

end Jetrun
