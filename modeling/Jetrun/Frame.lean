import Mathlib.Algebra.Group.Nat.Defs
import Mathlib.Order.Fin.Basic
import Jetrun.Lib.LittleEndian

/-!
# Frames

A frame header is sixteen bytes: the magic, the version, the message type, the flags, the stream and
the length of the payload. The range of versions a build speaks is fixed when it is compiled, so two
ends of a connection may differ in it; everything that reads it takes the build as a parameter.
-/

namespace Jetrun

abbrev U16 := Fin (2 ^ 16)

abbrev U32 := Fin (2 ^ 32)

instance neZeroU16 : NeZero (2 ^ 16) := ⟨by decide⟩

instance neZeroU32 : NeZero (2 ^ 32) := ⟨by decide⟩

/-- What a build fixes: the versions it speaks and the capabilities it has. -/
structure Build where
  minVersion : U16
  version : U16
  caps : U32
  min_le : minVersion ≤ version

/-- `JR`. -/
def magic : List UInt8 := [74, 82]

def headerLen : ℕ := 16

/-- Largest control payload accepted. -/
def maxPayload : ℕ := 8 * 2 ^ 20

inductive MsgType
  | hello
  | helloAck
  | goodbye
  | error
  | ping
  | pong
  | auth
  | authOk
  | submitRun
  | runAccepted
  | getRun
  | runInfo
  | cancelRun
  | tailLogs
  | logChunk
  | casQuery
  | casMissing
  | casPut
  | casGet
  | bulkHeader
deriving DecidableEq

namespace MsgType

def toU16 : MsgType → U16
  | hello => 0x0001
  | helloAck => 0x0002
  | goodbye => 0x0003
  | error => 0x0004
  | ping => 0x0005
  | pong => 0x0006
  | auth => 0x0101
  | authOk => 0x0102
  | submitRun => 0x0201
  | runAccepted => 0x0202
  | getRun => 0x0203
  | runInfo => 0x0204
  | cancelRun => 0x0205
  | tailLogs => 0x0301
  | logChunk => 0x0302
  | casQuery => 0x0401
  | casMissing => 0x0402
  | casPut => 0x0403
  | casGet => 0x0404
  | bulkHeader => 0x0405

def fromU16 (v : ℕ) : Option MsgType :=
  match v with
  | 0x0001 => some hello
  | 0x0002 => some helloAck
  | 0x0003 => some goodbye
  | 0x0004 => some error
  | 0x0005 => some ping
  | 0x0006 => some pong
  | 0x0101 => some auth
  | 0x0102 => some authOk
  | 0x0201 => some submitRun
  | 0x0202 => some runAccepted
  | 0x0203 => some getRun
  | 0x0204 => some runInfo
  | 0x0205 => some cancelRun
  | 0x0301 => some tailLogs
  | 0x0302 => some logChunk
  | 0x0401 => some casQuery
  | 0x0402 => some casMissing
  | 0x0403 => some casPut
  | 0x0404 => some casGet
  | 0x0405 => some bulkHeader
  | _ => none

end MsgType

namespace Flags

def none : U16 := 0

/-- Last frame on this stream. -/
def endStream : U16 := 2

end Flags

inductive FrameError
  | badMagic (bytes : List UInt8)
  | unsupportedVersion (version : ℕ)
  | unknownType (type : ℕ)
  | payloadTooLarge (len : ℕ)
deriving DecidableEq

structure FrameHeader where
  version : U16
  msgType : MsgType
  flags : U16
  streamId : U32
  payloadLen : U32
deriving DecidableEq

namespace FrameHeader

def new (build : Build) (msgType : MsgType) (streamId payloadLen : U32) : FrameHeader :=
  { version := build.version, msgType, flags := Flags.none, streamId, payloadLen }

def encode (h : FrameHeader) : List UInt8 :=
  magic ++ LittleEndian.toLe 2 h.version ++ LittleEndian.toLe 2 h.msgType.toU16
    ++ LittleEndian.toLe 2 h.flags ++ LittleEndian.toLe 4 h.streamId
    ++ LittleEndian.toLe 4 h.payloadLen

/-- The number in the `width` bytes from `at`. -/
def field (b : List UInt8) (start width : ℕ) : ℕ :=
  LittleEndian.ofLe ((b.drop start).take width)

/-- Read the sixteen bytes of a header. -/
def decode (build : Build) (b : List UInt8) : Except FrameError FrameHeader :=
  if b.take 2 ≠ magic then .error (.badMagic (b.take 2))
  else
    let version := field b 2 2
    if version < build.minVersion ∨ (build.version : ℕ) < version then
      .error (.unsupportedVersion version)
    else match MsgType.fromU16 (field b 4 2) with
      | none => .error (.unknownType (field b 4 2))
      | some msgType =>
        let payloadLen := field b 12 4
        if maxPayload < payloadLen then .error (.payloadTooLarge payloadLen)
        else .ok
          { version := Fin.ofNat _ version
            msgType
            flags := Fin.ofNat _ (field b 6 2)
            streamId := Fin.ofNat _ (field b 8 4)
            payloadLen := Fin.ofNat _ payloadLen }

end FrameHeader

end Jetrun
