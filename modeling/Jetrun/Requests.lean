import Jetrun.Msg

/-!
# Messages of a session

What a client may send once the handshake is done, and what its fields are checked for before
anything is made of them.
-/

namespace Jetrun

structure Ping where
  nonce : Fin (2 ^ 64)
deriving DecidableEq

structure Pong where
  nonce : Fin (2 ^ 64)
deriving DecidableEq

/-- `jetr_<prefix>_<secret>`. -/
structure Auth where
  token : String
deriving DecidableEq

structure AuthOk where
  org : String
  principalKind : String
  principalId : String
  permissions : List String
deriving DecidableEq

structure SubmitRun where
  project : String
  pipeline : String
  definition : List UInt8
  commitSha : Option String
  reference : Option String
  idempotencyKey : Option String
deriving DecidableEq

namespace Code

def internal : U16 := 1

def unauthenticated : U16 := 3

/-- Sent when a pre-auth peer tries a message that requires authentication. -/
def authRequired : U16 := 8

end Code

namespace Limits

def maxTokenLen : ℕ := 512

def maxNameLen : ℕ := 128

def maxDefinitionLen : ℕ := 2 ^ 20

def maxRefLen : ℕ := 512

def maxIdLen : ℕ := 64

def maxIdempotencyLen : ℕ := 128

end Limits

def nonemptyBounded (field s : String) (max : ℕ) : Except Invalid Unit :=
  if s.utf8ByteSize = 0 then .error (.empty field) else bounded field s max

/-- A field that may be left out. -/
def boundedIfSome (field : String) (s : Option String) (max : ℕ) : Except Invalid Unit :=
  match s with
  | none => .ok ()
  | some s => bounded field s max

def Auth.validate (a : Auth) : Except Invalid Unit :=
  nonemptyBounded "token" a.token Limits.maxTokenLen

def SubmitRun.validate (r : SubmitRun) : Except Invalid Unit := do
  nonemptyBounded "project" r.project Limits.maxNameLen
  nonemptyBounded "pipeline" r.pipeline Limits.maxNameLen
  if Limits.maxDefinitionLen < r.definition.length then
    throw (.tooLong "definition" r.definition.length Limits.maxDefinitionLen)
  boundedIfSome "commit_sha" r.commitSha Limits.maxIdLen
  boundedIfSome "reference" r.reference Limits.maxRefLen
  boundedIfSome "idempotency_key" r.idempotencyKey Limits.maxIdempotencyLen

namespace MsgType

/-- Whether this message may be sent before authentication succeeds. -/
def allowedPreauth : MsgType → Bool
  | hello | helloAck | auth | authOk | error | ping | pong | goodbye => true
  | _ => false

/-- The name it has in the text of an error. -/
def name : MsgType → String
  | hello => "Hello"
  | helloAck => "HelloAck"
  | goodbye => "Goodbye"
  | error => "Error"
  | ping => "Ping"
  | pong => "Pong"
  | auth => "Auth"
  | authOk => "AuthOk"
  | submitRun => "SubmitRun"
  | runAccepted => "RunAccepted"
  | getRun => "GetRun"
  | runInfo => "RunInfo"
  | cancelRun => "CancelRun"
  | tailLogs => "TailLogs"
  | logChunk => "LogChunk"
  | casQuery => "CasQuery"
  | casMissing => "CasMissing"
  | casPut => "CasPut"
  | casGet => "CasGet"
  | bulkHeader => "BulkHeader"

end MsgType

/-- The archives of all messages that a session reads or sends. -/
structure SessionCodec extends Codec where
  ping : Wire Ping
  pong : Wire Pong
  auth : Wire Auth
  authOk : Wire AuthOk
  submitRun : Wire SubmitRun

end Jetrun
