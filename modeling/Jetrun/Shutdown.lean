import Jetrun.Jrp
import Jetrun.Lib.Runs
import Jetrun.Lib.Watch

/-!
# The control plane until it shuts down

`serve` runs the two listeners as tasks of their own, and is over when both are. A third task waits
for Ctrl-C and sets the watched flag; after that, or if it cannot wait, the sender is gone. Both
listeners watch the flag, each in its way.

The order in which the tasks move is up to the schedule, and so are the connections. The sockets are
bound, which is the one thing before this that can fail. What a session does is of no consequence
here. A listener that waits for the flag has a receiver, so sending does not fail.
-/

namespace Jetrun

open Watch

namespace Shutdown

/-- The task that waits for Ctrl-C. -/
inductive Sender
  | waiting
  /-- It was pressed. -/
  | sending
  | sent
  | gone
deriving DecidableEq

/-- The HTTP listener. Its graceful shutdown begins when the loop over `changed` is left, and ends
with the last request that is under way. -/
inductive Http
  | awaiting (seen : ℕ)
  | looking (seen : ℕ)
  | draining
  | ended
deriving DecidableEq

/-- `jrp::serve`, from the call of `local_addr` on. -/
inductive JrpTask
  | starting (seen : ℕ)
  | selecting (seen : ℕ)
  | looking (seen : ℕ)
  | ended (r : Except Jrp.ErrorKind Unit)
deriving DecidableEq

structure ControlPlane where
  flag : Channel Bool
  sender : Sender
  http : Http
  /-- How many requests are under way. -/
  inFlight : ℕ
  jrp : JrpTask
deriving DecidableEq

def start : ControlPlane := ⟨Channel.new false, .waiting, .awaiting 0, 0, .starting 0⟩

inductive Move
  /-- `ctrl_c` returns. -/
  | interrupt (ok : Bool)
  | send
  /-- The task ends, and the sender with it. -/
  | hangUp
  | httpAccept
  | httpFinish
  | httpChanged
  | httpBorrow
  | httpDrained
  | jrpStart (r : Except Jrp.ErrorKind Unit)
  /-- A connection is accepted, or `accept` fails. -/
  | jrpAccept (ok : Bool)
  | jrpChanged
  | jrpBorrow

def step (s : ControlPlane) : Move → Option ControlPlane
  | .interrupt ok =>
    match s.sender with
    | .waiting => some { s with sender := if ok then .sending else .sent }
    | _ => none
  | .send =>
    match s.sender with
    | .sending => some { s with flag := s.flag.send true, sender := .sent }
    | _ => none
  | .hangUp =>
    match s.sender with
    | .sent => some { s with flag := s.flag.close, sender := .gone }
    | _ => none
  | .httpAccept =>
    match s.http with
    | .awaiting _ | .looking _ => some { s with inFlight := s.inFlight + 1 }
    | .draining | .ended => none
  | .httpFinish => if s.inFlight = 0 then none else some { s with inFlight := s.inFlight - 1 }
  | .httpChanged =>
    match s.http with
    | .awaiting seen => (s.flag.changed seen).map fun r =>
      match r with
      | .ok v => { s with http := .looking v }
      -- A closed channel ends the loop as well.
      | .error () => { s with http := .draining }
    | _ => none
  | .httpBorrow =>
    match s.http with
    | .looking seen => some { s with http := if s.flag.value then .draining else .awaiting seen }
    | _ => none
  | .httpDrained =>
    match s.http with
    | .draining => if s.inFlight = 0 then some { s with http := .ended } else none
    | _ => none
  | .jrpStart r =>
    match s.jrp with
    | .starting seen => some { s with jrp := match r with
      | .ok () => .selecting seen
      | .error e => .ended (.error e) }
    | _ => none
  | .jrpAccept _ =>
    match s.jrp with
    | .selecting _ => some s
    | _ => none
  | .jrpChanged =>
    match s.jrp with
    | .selecting seen => (s.flag.changed seen).map fun r =>
      match r with
      | .ok v => { s with jrp := .looking v }
      -- What `changed` returns is not looked at.
      | .error () => { s with jrp := .looking seen }
    | _ => none
  | .jrpBorrow =>
    match s.jrp with
    | .looking seen =>
      some { s with jrp := if s.flag.value then .ended (.ok ()) else .selecting seen }
    | _ => none

/-- What `serve` returns, if it does. -/
def ControlPlane.result (s : ControlPlane) : Option (Except Jrp.ErrorKind Unit) :=
  match s.http, s.jrp with
  | .ended, .ended r => some r
  | _, _ => none

def Reachable (s : ControlPlane) : Prop := ∃ moves, Runs.exec step start moves = some s

section Specification

/-- A step of the HTTP listener towards its end, which no client has a say in. -/
def Move.ofHttp : Move → Bool
  | .httpChanged | .httpBorrow | .httpDrained => true
  | _ => false

/-- The same of the JRP listener. -/
def Move.ofJrp : Move → Bool
  | .jrpStart _ | .jrpChanged | .jrpBorrow => true
  | _ => false

def Move.accepts : Move → Bool
  | .httpAccept => true
  | _ => false

def Move.finishes : Move → Bool
  | .httpFinish => true
  | _ => false

/-- Ctrl-C was pressed, and the listeners can tell. -/
def ControlPlane.Told (s : ControlPlane) : Prop := s.flag.value = true

/-- The sender is gone, and the listeners will never be told. -/
def ControlPlane.Untold (s : ControlPlane) : Prop := s.flag.isOpen = false ∧ s.flag.value = false

/-- The HTTP listener has a reason to end. -/
def ControlPlane.Ending (s : ControlPlane) : Prop := s.Told ∨ s.flag.isOpen = false

/-- The JRP listener is in its loop. -/
def ControlPlane.Serves (s : ControlPlane) : Prop :=
  ∃ seen, s.jrp = .selecting seen ∨ s.jrp = .looking seen

end Specification

end Shutdown

end Jetrun
