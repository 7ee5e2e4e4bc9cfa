import Jetrun.Frame
import Jetrun.Lib.Utf8

/-!
# Messages of the handshake

The payloads are archives of a serializer that is not part of this repository: how a message becomes
bytes is a parameter (`Wire`), of which `Wire.Faithful` says what the code relies on.
-/

namespace Jetrun

structure Hello where
  agent : String
  minVersion : U16
  maxVersion : U16
  capabilities : U32
deriving DecidableEq

structure HelloAck where
  agent : String
  version : U16
  capabilities : U32
  session : String
deriving DecidableEq

structure ErrorMsg where
  code : U16
  message : String
deriving DecidableEq

namespace Code

def badRequest : U16 := 2

def versionMismatch : U16 := 6

end Code

namespace Limits

def maxAgentLen : ℕ := 128

end Limits

inductive Invalid
  | tooLong (field : String) (len max : ℕ)
  | empty (field : String)
  | other (message : String)
deriving DecidableEq

def Invalid.toString : Invalid → String
  | tooLong field len max => field ++ " is " ++ len.repr ++ " bytes, limit is " ++ max.repr
  | empty field => field ++ " must not be empty"
  | other message => message

def bounded (field s : String) (max : ℕ) : Except Invalid Unit :=
  if max < s.utf8ByteSize then .error (.tooLong field s.utf8ByteSize max) else .ok ()

def Hello.validate (h : Hello) : Except Invalid Unit := do
  bounded "agent" h.agent Limits.maxAgentLen
  if h.maxVersion < h.minVersion then throw (.other "min_version exceeds max_version")

inductive CodecError
  | encode (message : String)
  | decode (message : String)
deriving DecidableEq

/-- How the messages of one type become bytes and are read back. -/
structure Wire (α : Type) where
  encode : α → Except CodecError (List UInt8)
  decode : List UInt8 → Except CodecError α

/-- What an archive takes beside the text in it. -/
def archiveOverhead : ℕ := 64

/-- A message whose text is shorter than a frame may be is archived in little more space than its
text takes, and is read back as it was. -/
def Wire.Faithful {α : Type} (w : Wire α) (text : α → ℕ) : Prop :=
  ∀ x, text x ≤ maxPayload → ∃ bytes, w.encode x = .ok bytes ∧
    bytes.length ≤ text x + archiveOverhead ∧ w.decode bytes = .ok x

namespace Hello

def text (h : Hello) : ℕ := h.agent.utf8ByteSize

end Hello

namespace HelloAck

def text (a : HelloAck) : ℕ := a.agent.utf8ByteSize + a.session.utf8ByteSize

end HelloAck

namespace ErrorMsg

def text (e : ErrorMsg) : ℕ := e.message.utf8ByteSize

end ErrorMsg

/-- The archives of the messages that the handshake sends. -/
structure Codec where
  hello : Wire Hello
  helloAck : Wire HelloAck
  errorMsg : Wire ErrorMsg

structure Codec.Faithful (c : Codec) : Prop where
  hello : c.hello.Faithful Hello.text
  helloAck : c.helloAck.Faithful HelloAck.text
  errorMsg : c.errorMsg.Faithful ErrorMsg.text

end Jetrun
