import Jetrun.Id
import Jetrun.Msg

/-!
# The handshake

Each end of a connection reads a byte stream and writes another. Reading a frame takes its bytes off
the front of what has arrived; a stream that ends inside a frame is an error. The two halves of the
handshake are run against each other in `handshake`.
-/

namespace Jetrun

inductive ConnError
  | unexpectedEof
  | frame (e : FrameError)
  | codec (e : CodecError)
  | unexpected (type : MsgType)
  | peer (code : U16) (message : String)
  | payloadTooLarge (len : ℕ)
  | invalid (e : Invalid)
deriving DecidableEq

structure Frame where
  header : FrameHeader
  payload : List UInt8

/-- The state of one end, apart from the bytes in its socket. -/
structure JrpConn where
  version : U16
  peerCaps : U32
  nextStreamId : U32
  clientSide : Bool
deriving DecidableEq

namespace JrpConn

def server (build : Build) : JrpConn :=
  { version := build.version, peerCaps := 0, nextStreamId := 2, clientSide := false }

def client (build : Build) : JrpConn :=
  { version := build.version, peerCaps := 0, nextStreamId := 1, clientSide := true }

/-- Allocate the next stream id for this side. -/
def nextStream (c : JrpConn) : JrpConn × U32 :=
  ({ c with nextStreamId := max (c.nextStreamId + 2) (if c.clientSide then 1 else 2) },
    c.nextStreamId)

/-- The bytes a message is sent as. -/
def send {α : Type} (c : JrpConn) (build : Build) (wire : Wire α) (msgType : MsgType)
    (streamId : U32) (value : α) (flags : U16) : Except ConnError (List UInt8) :=
  match wire.encode value with
  | .error e => .error (.codec e)
  | .ok payload =>
    if maxPayload < payload.length then .error (.payloadTooLarge payload.length)
    else
      let header := FrameHeader.new build msgType streamId (Fin.ofNat _ payload.length)
      .ok ({ header with version := c.version, flags }.encode ++ payload)

/-- Read one frame off the bytes that arrived. -/
def recv (build : Build) (arrived : List UInt8) : Except ConnError (Frame × List UInt8) :=
  if arrived.length < headerLen then .error .unexpectedEof
  else match FrameHeader.decode build (arrived.take headerLen) with
    | .error e => .error (.frame e)
    | .ok header =>
      let rest := arrived.drop headerLen
      if rest.length < header.payloadLen then .error .unexpectedEof
      else .ok (⟨header, rest.take header.payloadLen⟩, rest.drop header.payloadLen)

def sendError (c : JrpConn) (build : Build) (codec : Codec) (streamId : U32) (code : U16)
    (message : String) : Except ConnError (List UInt8) :=
  c.send build codec.errorMsg .error streamId ⟨code, message⟩ Flags.endStream

def decodeAs {α : Type} (wire : Wire α) (frame : Frame) : Except ConnError α :=
  (wire.decode frame.payload).mapError .codec

/-- The client's first message. -/
def clientHello (c : JrpConn) (build : Build) (codec : Codec) (agent : String) :
    JrpConn × Except ConnError (List UInt8) :=
  let (c, streamId) := c.nextStream
  (c, c.send build codec.hello .hello streamId
    { agent, minVersion := build.minVersion, maxVersion := build.version,
      capabilities := build.caps } Flags.none)

/-- What the client makes of the answer. -/
def clientFinish (c : JrpConn) (build : Build) (codec : Codec) (arrived : List UInt8) :
    Except ConnError (JrpConn × HelloAck) := do
  let (frame, _) ← recv build arrived
  match frame.header.msgType with
  | .helloAck =>
    let ack ← decodeAs codec.helloAck frame
    if ack.version < build.minVersion ∨ build.version < ack.version then
      throw (.frame (.unsupportedVersion ack.version))
    pure ({ c with version := ack.version, peerCaps := ack.capabilities }, ack)
  | .error =>
    let e ← decodeAs codec.errorMsg frame
    throw (.peer e.code e.message)
  | other => throw (.unexpected other)

/-- Send an error and fail with `e`, unless sending fails first. -/
def refuse (c : JrpConn) (build : Build) (codec : Codec) (streamId : U32) (code : U16)
    (message : String) (e : ConnError) : List UInt8 × Except ConnError (JrpConn × Hello) :=
  match c.sendError build codec streamId code message with
  | .error e' => ([], .error e')
  | .ok bytes => (bytes, .error e)

/-- The server's half: the bytes it sends, and the connection it ends with. -/
def serverHandshake (c : JrpConn) (build : Build) (codec : Codec) (agent session : String)
    (arrived : List UInt8) : List UInt8 × Except ConnError (JrpConn × Hello) :=
  match recv build arrived with
  | .error e => ([], .error e)
  | .ok (frame, _) =>
    let streamId := frame.header.streamId
    if frame.header.msgType ≠ .hello then
      c.refuse build codec streamId Code.badRequest "expected Hello as the first frame"
        (.unexpected frame.header.msgType)
    else match decodeAs codec.hello frame with
      | .error e => ([], .error e)
      | .ok hello =>
        match hello.validate with
        | .error e => c.refuse build codec streamId Code.badRequest e.toString (.invalid e)
        | .ok _ =>
          let negotiated := min build.version hello.maxVersion
          if negotiated < build.minVersion ∨ negotiated < hello.minVersion then
            c.refuse build codec streamId Code.versionMismatch
              ("peer speaks " ++ (hello.minVersion : ℕ).repr ++ "..=" ++ (hello.maxVersion : ℕ).repr
                ++ ", this server speaks " ++ (build.minVersion : ℕ).repr ++ "..="
                ++ (build.version : ℕ).repr)
              (.frame (.unsupportedVersion hello.maxVersion))
          else
            let c := { c with version := negotiated, peerCaps := hello.capabilities }
            match c.send build codec.helloAck .helloAck streamId
              { agent, version := negotiated, capabilities := build.caps &&& hello.capabilities,
                session } Flags.none with
            | .error e => ([], .error e)
            | .ok bytes => (bytes, .ok (c, hello))

end JrpConn

/-- A client of one build against a server of another, over a stream that loses nothing. The server
reads what the client sent, and the client reads what the server sent before it was done. -/
def handshake (clientBuild serverBuild : Build) (codec : Codec) (clientAgent serverAgent : String)
    (session : Ulid) :
    Except ConnError (JrpConn × HelloAck) × Except ConnError (JrpConn × Hello) :=
  let (c, hello) := (JrpConn.client clientBuild).clientHello clientBuild codec clientAgent
  let sent := match hello with
    | .error _ => []
    | .ok bytes => bytes
  let (answer, served) :=
    (JrpConn.server serverBuild).serverHandshake serverBuild codec serverAgent session.text sent
  (hello.bind fun _ => c.clientFinish clientBuild codec answer, served)

end Jetrun
