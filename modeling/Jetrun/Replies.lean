import Jetrun.Jrp

/-!
# Requests and replies

A client with several requests under way tells the replies apart by their streams, and counts on one
for each request.
-/

namespace Jetrun

/-- The archive of the message fits into a frame. -/
def Wire.Fits {α : Type} (w : Wire α) (x : α) : Prop :=
  ∃ bytes, w.encode x = .ok bytes ∧ bytes.length ≤ maxPayload

/-- The lengths of its fields in bytes. -/
def SubmitRun.lengths (r : SubmitRun) : List ℕ :=
  [r.project.utf8ByteSize, r.pipeline.utf8ByteSize, r.definition.length] ++
    [r.commitSha, r.reference, r.idempotencyKey].filterMap (·.map String.utf8ByteSize)

/-- The answers of a session fit into frames, and what is read fits into memory. -/
structure SessionCodec.Usable (codec : SessionCodec) : Prop where
  errorMsg : codec.errorMsg.Faithful ErrorMsg.text
  pong : ∀ p, codec.pong.Fits p
  authOk : codec.authOk.Fits
    { org := "", principalKind := "service_account", principalId := "", permissions := [] }
  auth : ∀ bytes a, codec.auth.decode bytes = .ok a → a.token.utf8ByteSize < 2 ^ 64
  submitRun : ∀ bytes r, codec.submitRun.decode bytes = .ok r → ∀ n ∈ r.lengths, n < 2 ^ 64

namespace Jrp

/-- A frame that is received, and what `authenticate_token` says of tokens while it is handled. -/
structure Request where
  frame : Frame
  authenticate : String → Except AuthError Unit

section Conversation

variable (l : Listener)

/-- The loop, on a socket without faults. -/
def attend : List Request → Handling Flow
  | [] => pure .next
  | r :: rest => do
    match ← turn { l with authenticate := r.authenticate } ⟨.ok r.frame, .ok ()⟩ with
    | .next => attend rest
    | .done => pure .done

/-- A session whose peer sends these requests after the handshake. -/
def converse (session : String) (hello : List UInt8) (requests : List Request) :
    Traced.Outcome Session SessionError Event Flow :=
  (greet l session hello >>= fun _ => attend l requests) (Session.start l)

/-- The request authenticates its peer. -/
def Request.admitted (r : Request) : Prop :=
  Admits { l with authenticate := r.authenticate } r.frame

def Unreadable {α : Type} (wire : Wire α) (frame : Frame) : Prop :=
  ∀ x, wire.decode frame.payload ≠ .ok x

/-- The frame ends the session of a peer that is authenticated, or is not. -/
inductive Ends (authenticated : Prop) (frame : Frame) : Prop
  | goodbye (htype : frame.header.msgType = .goodbye)
  | ping (htype : frame.header.msgType = .ping) (hread : Unreadable l.codec.ping frame)
  | auth (htype : frame.header.msgType = .auth) (hread : Unreadable l.codec.auth frame)
  | submitRun (htype : frame.header.msgType = .submitRun) (hauth : authenticated)
    (hread : Unreadable l.codec.submitRun frame)

/-- The request ends the session after those before it. -/
def Request.ends (before : List Request) (r : Request) : Prop :=
  Ends l (∃ q ∈ before, q.admitted l) r.frame

/-- A frame on the stream of the request. -/
structure Request.Answer (r : Request) (reply : Frame) : Prop where
  streamId : reply.header.streamId = r.frame.header.streamId
  payloadLen : (reply.header.payloadLen : ℕ) = reply.payload.length

end Conversation

end Jrp

end Jetrun
