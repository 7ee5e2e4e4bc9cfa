import Jetrun.Lib.Dialogue
import Jetrun.Negotiation
import Jetrun.Replies

/-!
# A command of the client against the listener

`ping` and `submit` dial the internal listener, shake hands, and send one request after another,
each when the one before was answered. The listener takes a frame, answers it, and waits for the
next. Each side is a program of its own, and the bytes between them are in a socket.

A write always goes through: neither program writes to a socket that the other has closed. A read
that meets the end of the stream gets what is left, whichever way the socket was closed.
-/

namespace Jetrun

open Dialogue

structure RunAccepted where
  runId : String
  number : Fin (2 ^ 64)
  definitionDigest : String
  deduplicated : Bool
deriving DecidableEq

/-- The archives of all messages that pass between a client and the listener. -/
structure CliCodec extends SessionCodec where
  runAccepted : Wire RunAccepted

namespace JrpConn

/-- How much of what has arrived `recv` takes, once it has enough: a frame, or a header that is
refused before its payload is read. -/
def cut (build : Build) (arrived : List UInt8) : Option ℕ :=
  match recv build arrived with
  | .ok (_, rest) => some (arrived.length - rest.length)
  | .error .unexpectedEof => none
  | .error _ => some headerLen

/-- What is behind a frame has no part in how it is read. -/
theorem recv_append {build : Build} {arrived : List UInt8}
    (h : recv build arrived ≠ .error .unexpectedEof) (more : List UInt8) :
    headerLen ≤ arrived.length ∧ recv build (arrived ++ more) =
      (recv build arrived).map fun r => (r.1, r.2 ++ more) := by
  unfold recv at h ⊢
  have hshort : ¬arrived.length < headerLen := fun hlt => h (if_pos hlt)
  rw [if_neg hshort] at h
  have hle : headerLen ≤ arrived.length := not_lt.1 hshort
  have hmore : ¬(arrived ++ more).length < headerLen := by
    rw [List.length_append]
    omega
  refine ⟨hle, ?_⟩
  rw [if_neg hshort, if_neg hmore, List.take_append_of_le_length hle,
    List.drop_append_of_le_length hle]
  cases hdecode : FrameHeader.decode build (arrived.take headerLen) with
  | error e => rfl
  | ok header =>
    simp only [hdecode] at h ⊢
    have hcut : ¬(arrived.drop headerLen).length < header.payloadLen := fun hlt => h (if_pos hlt)
    have hfull : (header.payloadLen : ℕ) ≤ (arrived.drop headerLen).length := not_lt.1 hcut
    have hrest : ¬(arrived.drop headerLen ++ more).length < header.payloadLen := by
      rw [List.length_append]
      omega
    rw [if_neg hcut, if_neg hrest, List.take_append_of_le_length hfull,
      List.drop_append_of_le_length hfull]
    rfl

theorem cut_append {build : Build} {arrived : List UInt8} {n : ℕ} (more : List UInt8)
    (h : cut build arrived = some n) :
    n ≤ arrived.length ∧ cut build (arrived ++ more) = some n := by
  unfold cut at h ⊢
  have hne : recv build arrived ≠ .error .unexpectedEof := by
    intro heof
    simp [heof] at h
  obtain ⟨hle, hmore⟩ := recv_append hne more
  rw [hmore]
  rcases hr : recv build arrived with e | ⟨frame, rest⟩
  · cases e with
    | unexpectedEof => exact absurd hr hne
    | _ =>
      simp only [hr, Option.some.injEq] at h
      exact ⟨h ▸ hle, by simp only [Except.map, h]⟩
  · simp only [hr, Option.some.injEq] at h
    refine ⟨by omega, ?_⟩
    simp only [Except.map, Option.some.injEq, List.length_append]
    omega

end JrpConn

namespace Cli

inductive CliError
  | conn (e : ConnError)
  | codec (e : CodecError)
  /-- What the command itself has to say. -/
  | bail (text : String)
deriving DecidableEq

abbrev Dial := Script UInt8 CliError

/-- What the commands have in common. -/
structure Client where
  build : Build
  codec : CliCodec
  agent : String

section Connection

variable (cl : Client) (c : JrpConn)

def send {α : Type} (wire : Wire α) (msgType : MsgType) (streamId : U32) (value : α) :
    Dial Unit := do
  let bytes ← Script.ofExcept
    ((c.send cl.build wire msgType streamId value Flags.none).mapError .conn)
  Script.write bytes

def recv : Dial Frame := do
  let arrived ← Script.read
  let (frame, _) ← Script.ofExcept ((JrpConn.recv cl.build arrived).mapError .conn)
  pure frame

def decode {α : Type} (wire : Wire α) (frame : Frame) : Dial α :=
  Script.ofExcept ((wire.decode frame.payload).mapError .codec)

def clientHandshake : Dial (JrpConn × HelloAck) := do
  let (c, hello) := c.clientHello cl.build cl.codec.toCodec cl.agent
  let bytes ← Script.ofExcept (hello.mapError .conn)
  Script.write bytes
  let arrived ← Script.read
  Script.ofExcept ((c.clientFinish cl.build cl.codec.toCodec arrived).mapError .conn)

/-- The nonce that comes back. -/
def connPing (nonce : Fin (2 ^ 64)) : Dial (Fin (2 ^ 64)) := do
  let (c, streamId) := c.nextStream
  send cl c cl.codec.ping .ping streamId ⟨nonce⟩
  let frame ← recv cl
  if frame.header.msgType ≠ .pong then
    Script.fail (.conn (.unexpected frame.header.msgType))
  let pong ← Script.ofExcept ((JrpConn.decodeAs cl.codec.pong frame).mapError .conn)
  pure pong.nonce

end Connection

/-- The program of a command. -/
def party (build : Build) : Party UInt8 (Dial String) where
  act := Script.act
  cut := JrpConn.cut build
  cut_append := JrpConn.cut_append

/-- What is printed of the server. -/
def pingLine (ack : HelloAck) : String :=
  "ok  jrp v" ++ (ack.version : ℕ).repr ++ "  session " ++ ack.session ++ "  server " ++ ack.agent

/-- `jetrun ping`, with the process id for a nonce. -/
def ping (cl : Client) (nonce : Fin (2 ^ 64)) : Dial String := do
  let (c, ack) ← clientHandshake cl (JrpConn.client cl.build)
  let echoed ← connPing cl c nonce
  if echoed ≠ nonce then Script.fail (.bail "server echoed the wrong nonce")
  pure (pingLine ack)

/-- The arguments of `jetrun submit`, the file it reads, and the key it generates. -/
structure Submission where
  project : String
  pipeline : String
  definition : List UInt8
  token : Option String
  key : Ulid

def Submission.request (sub : Submission) : SubmitRun where
  project := sub.project
  pipeline := sub.pipeline
  definition := sub.definition
  commitSha := none
  reference := none
  idempotencyKey := some sub.key.text

def acceptedLine (acc : RunAccepted) : String :=
  "run #" ++ (acc.number : ℕ).repr ++ " accepted (" ++ acc.runId ++ ")" ++
    if acc.deduplicated then " [deduplicated]" else ""

def refusedLine (e : ErrorMsg) : String :=
  "server refused the run (code " ++ (e.code : ℕ).repr ++ "): " ++ e.message

def authenticate (cl : Client) (c : JrpConn) (token : String) : Dial JrpConn := do
  let (c, streamId) := c.nextStream
  send cl c cl.codec.auth .auth streamId ⟨token⟩
  let frame ← recv cl
  if frame.header.msgType = .error then
    let e ← decode cl.codec.errorMsg frame
    Script.fail (.bail ("authentication failed: " ++ e.message))
  pure c

def submitRun (cl : Client) (c : JrpConn) (request : SubmitRun) : Dial String := do
  let (c, streamId) := c.nextStream
  send cl c cl.codec.submitRun .submitRun streamId request
  let frame ← recv cl
  match frame.header.msgType with
  | .runAccepted =>
    let acc ← decode cl.codec.runAccepted frame
    pure (acceptedLine acc)
  | .error =>
    let e ← decode cl.codec.errorMsg frame
    Script.fail (.bail (refusedLine e))
  | other => Script.fail (.bail ("unexpected reply " ++ other.name))

end Cli

namespace Jrp

/-- Where a session is. -/
inductive Serving
  | greeting
  | attending (s : Session)
  | writing (reply : List UInt8) (next : Serving)
  | ended (r : Except SessionError Unit)

namespace Serving

/-- The replies are written before anything else happens. -/
def after (trace : List Event) (next : Serving) : Serving := (replies trace).foldr .writing next

def received (build : Build) (arrived : List UInt8) : Except SessionError Frame :=
  match JrpConn.recv build arrived with
  | .ok (frame, _) => .ok frame
  | .error .unexpectedEof => .error (.io .unexpectedEof)
  | .error e => .error (.conn e)

def greeted (l : Listener) (session : String) (arrived : List UInt8) : Serving :=
  let o := greet l session arrived (Session.start l)
  after o.trace (match o.result with
    | .ok () => .attending o.world
    | .error e => .ended (.error e))

def attended (l : Listener) (s : Session) (arrived : List UInt8) : Serving :=
  let o := turn l ⟨received l.build arrived, .ok ()⟩ s
  after o.trace (match o.result with
    | .ok .next => .attending o.world
    | .ok .done => .ended (.ok ())
    | .error e => .ended (.error e))

def act (l : Listener) (session : String) : Serving → Act UInt8 Serving
  | greeting => .recv (greeted l session)
  | attending s => .recv (attended l s)
  | writing reply next => .send reply next
  | ended _ => .ended

/-- The program of a session of the listener. -/
def party (l : Listener) (session : String) : Party UInt8 Serving where
  act := act l session
  cut := JrpConn.cut l.build
  cut_append := JrpConn.cut_append

end Serving

end Jrp

section Specification

/-- The message fits into a frame and is read back as it was. -/
def Wire.Delivers {α : Type} (w : Wire α) (x : α) : Prop :=
  ∃ payload, w.encode x = .ok payload ∧ payload.length ≤ maxPayload ∧ w.decode payload = .ok x

/-- What both sides archive is what both sides read. -/
structure CliCodec.Sound (codec : CliCodec) : Prop where
  handshake : codec.toCodec.Faithful
  usable : codec.toSessionCodec.Usable
  ping : ∀ p, codec.ping.Delivers p
  pong : codec.pong.RoundTrips
  auth : codec.auth.RoundTrips
  authOk : codec.authOk.RoundTrips
  submitRun : codec.submitRun.RoundTrips

/-- A command that has just connected, and a session that has just been accepted. -/
def dialed (command : Cli.Dial String) : Link UInt8 (Cli.Dial String) Jrp.Serving :=
  ⟨⟨command, []⟩, ⟨.greeting, []⟩⟩

/-- Both programs are done with the connection, and nothing is left in it. -/
def hungUp (printed : Except Cli.CliError String) (served : Except Jrp.SessionError Unit) :
    Link UInt8 (Cli.Dial String) Jrp.Serving :=
  ⟨⟨.ended printed, []⟩, ⟨.ended served, []⟩⟩

/-- What a token is refused with, if it is refused. -/
def Jrp.authRefusal (authenticate : String → Except AuthError Unit) (auth : Auth) :
    Option ErrorMsg :=
  match auth.validate with
  | .error e => some ⟨Code.badRequest, e.toString⟩
  | .ok () =>
    match authenticate auth.token with
    | .error _ => some ⟨Code.unauthenticated, "authentication failed"⟩
    | .ok () => none

/-- What a run is refused with, once its peer has authenticated. -/
def Jrp.runRefusal (r : SubmitRun) : ErrorMsg :=
  match r.validate with
  | .error e => ⟨Code.badRequest, e.toString⟩
  | .ok () => ⟨Code.internal, "run submission is not wired up yet"⟩

/-- What `jetrun submit` fails with. -/
def Cli.Submission.refusal (authenticate : String → Except AuthError Unit) (sub : Submission) :
    String :=
  match sub.token with
  | none => refusedLine ⟨Code.authRequired, "authenticate before issuing this request"⟩
  | some token =>
    match Jrp.authRefusal authenticate ⟨token⟩ with
    | some e => "authentication failed: " ++ e.message
    | none => refusedLine (Jrp.runRefusal sub.request)

end Specification

end Jetrun
