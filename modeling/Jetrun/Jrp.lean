import Jetrun.Framing
import Jetrun.Lib.Traced
import Jetrun.Requests

/-!
# Sessions of the internal listener

After the handshake a session takes one frame after another. Until the peer has authenticated, only
the frames that may come before that get past the gate of the loop. Every frame that gets past it
and every payload that is read leaves an event, and so does every answer.
-/

namespace Jetrun

inductive AuthError
  | malformed
  | unknown
deriving DecidableEq

/-- The first `n - 1` separators cut the text. -/
def splitn (sep : Char) : ℕ → List Char → List (List Char)
  | 0, _ => []
  | 1, text => [text]
  | n + 2, text =>
    if sep ∈ text then
      text.takeWhile (· ≠ sep) :: splitn sep (n + 1) (text.dropWhile (· ≠ sep)).tail
    else [text]

/-- Verify an API token. Nothing is looked up yet, so no token is recognized. -/
def authenticateToken (token : String) : Except AuthError Unit :=
  match splitn '_' 3 token.toList with
  | [kind, handle, secret] =>
    if kind = "jetr".toList ∧ handle ≠ [] ∧ secret ≠ [] then .error .unknown
    else .error .malformed
  | _ => .error .malformed

namespace Jrp

/-- What all sessions of the listener share. -/
structure Listener where
  build : Build
  codec : SessionCodec
  agent : String
  authenticate : String → Except AuthError Unit

structure Session where
  conn : JrpConn
  authenticated : Bool
deriving DecidableEq

inductive ErrorKind
  | unexpectedEof
  | connectionReset
  | other (code : ℕ)
deriving DecidableEq

inductive SessionError
  | io (kind : ErrorKind)
  | conn (e : ConnError)
  | codec (e : CodecError)
deriving DecidableEq

/-- What the socket does in one turn of the loop: what is received, and how a write ends. -/
structure Arrival where
  received : Except SessionError Frame
  written : Except ErrorKind Unit

inductive Event
  /-- The frame got past the gate. -/
  | dispatched (frame : Frame)
  /-- The payload of the frame was read. -/
  | decoded (frame : Frame)
  | sent (bytes : List UInt8)

/-- Whether the loop takes another turn. -/
inductive Flow
  | next
  | done
deriving DecidableEq

abbrev Handling := Traced Session SessionError Event

section Replies

variable (l : Listener) (a : Arrival)

def send {α : Type} (wire : Wire α) (msgType : MsgType) (streamId : U32) (value : α) (flags : U16) :
    Handling Unit := do
  let s ← Traced.act get
  let bytes ← Traced.ofExcept
    ((s.conn.send l.build wire msgType streamId value flags).mapError .conn)
  Traced.ofExcept (a.written.mapError .io)
  Traced.emit (.sent bytes)

def sendError (streamId : U32) (code : U16) (message : String) : Handling Unit :=
  send l a l.codec.errorMsg .error streamId ⟨code, message⟩ Flags.endStream

def decode {α : Type} (wire : Wire α) (frame : Frame) : Handling α := do
  Traced.emit (.decoded frame)
  Traced.ofExcept ((wire.decode frame.payload).mapError .codec)

/-- The arms of the loop, each with the frame that leads to it. -/
def serveFrame (frame : Frame) : Handling Flow := do
  let streamId := frame.header.streamId
  match frame.header.msgType with
  | .ping =>
    let p ← decode l.codec.ping frame
    send l a l.codec.pong .pong streamId ⟨p.nonce⟩ Flags.none
    pure .next
  | .auth =>
    let auth ← decode l.codec.auth frame
    match auth.validate with
    | .error e =>
      sendError l a streamId Code.badRequest e.toString
      pure .next
    | .ok () =>
      match l.authenticate auth.token with
      | .ok () =>
        Traced.act (modify fun s => { s with authenticated := true })
        send l a l.codec.authOk .authOk streamId
          { org := "", principalKind := "service_account", principalId := "", permissions := [] }
          Flags.endStream
        pure .next
      | .error _ =>
        sendError l a streamId Code.unauthenticated "authentication failed"
        pure .next
  | .submitRun =>
    let sub ← decode l.codec.submitRun frame
    match sub.validate with
    | .error e =>
      sendError l a streamId Code.badRequest e.toString
      pure .next
    | .ok () =>
      sendError l a streamId Code.internal "run submission is not wired up yet"
      pure .next
  | .getRun | .cancelRun | .tailLogs | .casQuery =>
    sendError l a streamId Code.internal "not implemented yet"
    pure .next
  | .goodbye => pure .done
  | other =>
    sendError l a streamId Code.badRequest (other.name ++ " is not valid from a client")
    pure .next

/-- One turn of the loop. A closed connection is the normal way a session ends. -/
def turn : Handling Flow :=
  match a.received with
  | .error (.io .unexpectedEof) => pure .done
  | .error (.io .connectionReset) => pure .done
  | .error e => Traced.fail e
  | .ok frame => do
    let s ← Traced.act get
    if !s.authenticated && !frame.header.msgType.allowedPreauth then
      sendError l a frame.header.streamId Code.authRequired
        "authenticate before issuing this request"
      pure .next
    else
      Traced.emit (.dispatched frame)
      serveFrame l a frame

end Replies

/-- One turn after another, as long as something arrives. -/
def loop (l : Listener) : List Arrival → Handling Flow
  | [] => pure .next
  | a :: rest => do
    match ← turn l a with
    | .next => loop l rest
    | .done => pure .done

/-- The handshake, with what the peer sent for it. -/
def greet (l : Listener) (session : String) (hello : List UInt8) : Handling Unit := do
  let s ← Traced.act get
  let (answer, served) :=
    s.conn.serverHandshake l.build l.codec.toCodec l.agent session hello
  if answer = [] then pure () else Traced.emit (.sent answer)
  let (conn, _) ← Traced.ofExcept (served.mapError .conn)
  Traced.act (modify fun s => { s with conn })

def Session.start (l : Listener) : Session := ⟨JrpConn.server l.build, false⟩

/-- A session from the first byte: how far it gets, what it leaves and what it goes through. -/
def handle (l : Listener) (session : String) (hello : List UInt8) (arrivals : List Arrival) :
    Traced.Outcome Session SessionError Event Flow :=
  (greet l session hello >>= fun _ => loop l arrivals) (Session.start l)

section Specification

variable (l : Listener)

/-- A token that the listener takes the trouble to verify. -/
def Presentable (token : String) : Prop :=
  1 ≤ token.utf8ByteSize ∧ token.utf8ByteSize ≤ Limits.maxTokenLen

/-- The frame carries a token that is accepted. -/
def Admits (frame : Frame) : Prop :=
  frame.header.msgType = .auth ∧ ∃ auth : Auth, l.codec.auth.decode frame.payload = .ok auth ∧
    Presentable auth.token ∧ l.authenticate auth.token = .ok ()

/-- An accepted token was presented before. -/
def Earned (before : List Event) : Prop := ∃ frame, .dispatched frame ∈ before ∧ Admits l frame

/-- Something is made of a frame that needs authentication. -/
def Event.Privileged : Event → Prop
  | .dispatched frame => frame.header.msgType.allowedPreauth = false
  | .decoded frame => frame.header.msgType.allowedPreauth = false
  | .sent _ => False

/-- A token that is refused, for whichever reason. -/
def Refused (token : String) : Prop := Presentable token ∧ ∃ e, l.authenticate token = .error e

/-- The same arrival, up to a refused token. -/
inductive SameButToken : Arrival → Arrival → Prop
  | same (a : Arrival) : SameButToken a a
  | token {f g : Frame} {auth auth' : Auth} (written : Except ErrorKind Unit)
      (hauth : f.header.msgType = .auth)
      (hheader : g.header = { f.header with payloadLen := g.header.payloadLen })
      (hf : l.codec.auth.decode f.payload = .ok auth)
      (hg : l.codec.auth.decode g.payload = .ok auth')
      (hrefused : Refused l auth.token) (hrefused' : Refused l auth'.token) :
      SameButToken ⟨.ok f, written⟩ ⟨.ok g, written⟩

/-- What the peer sees of an event. -/
def Event.reply : Event → Option (List UInt8)
  | .sent bytes => some bytes
  | _ => none

/-- All that the peer is sent, in order. -/
def replies (trace : List Event) : List (List UInt8) := trace.filterMap Event.reply

end Specification

end Jrp

end Jetrun
