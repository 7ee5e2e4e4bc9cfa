import Jetrun.Conn
import Jetrun.Lib.Chunks

/-!
# Frames on a stream

What a connection sends is one frame after another, and it arrives in pieces that need not begin
where a frame does.
-/

namespace Jetrun

/-- The bytes of a frame. -/
def Frame.encode (f : Frame) : List UInt8 := f.header.encode ++ f.payload

/-- A call of `send`. -/
structure Message where
  Body : Type
  wire : Wire Body
  msgType : MsgType
  streamId : U32
  value : Body
  flags : U16

namespace JrpConn

/-- What one call of `send` after another writes. -/
def sendAll (c : JrpConn) (build : Build) : List Message → Except ConnError (List (List UInt8))
  | [] => .ok []
  | m :: ms => do
    let bytes ← c.send build m.wire m.msgType m.streamId m.value m.flags
    let rest ← c.sendAll build ms
    pure (bytes :: rest)

/-- Read one frame off a stream. -/
def recvFrom (build : Build) (arrived : List (List UInt8)) :
    Except ConnError (Frame × List (List UInt8)) :=
  match Chunks.readExact headerLen arrived with
  | none => .error .unexpectedEof
  | some (hdr, arrived) =>
    match FrameHeader.decode build hdr with
    | .error e => .error (.frame e)
    | .ok header =>
      if (header.payloadLen : ℕ) = 0 then .ok (⟨header, []⟩, arrived)
      else match Chunks.readExact header.payloadLen arrived with
        | none => .error .unexpectedEof
        | some (payload, arrived) => .ok (⟨header, payload⟩, arrived)

/-- What `count` successive calls of `recv` return, if none fails. -/
def recvMany (build : Build) :
    ℕ → List (List UInt8) → Except ConnError (List Frame × List (List UInt8))
  | 0, arrived => .ok ([], arrived)
  | count + 1, arrived => do
    let (frame, arrived) ← recvFrom build arrived
    let (frames, arrived) ← recvMany build count arrived
    pure (frame :: frames, arrived)

end JrpConn

/-- The frame is what the connection sends for the message. -/
structure Message.SentAs (m : Message) (c : JrpConn) (f : Frame) : Prop where
  header : f.header = ⟨c.version, m.msgType, m.flags, m.streamId, f.header.payloadLen⟩
  payloadLen : (f.header.payloadLen : ℕ) = f.payload.length
  payload : m.wire.encode m.value = .ok f.payload

end Jetrun
