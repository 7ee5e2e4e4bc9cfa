import Jetrun.Framing

/-!
# What two builds negotiate

The constants of a build are fixed when it is compiled, so the two ends of a handshake may disagree
on which versions and which capabilities there are.
-/

namespace Jetrun

/-- The build speaks the version. -/
def Build.Speaks (b : Build) (v : U16) : Prop := b.minVersion ≤ v ∧ v ≤ b.version

/-- There is a version that both builds speak. -/
def Overlap (clientBuild serverBuild : Build) : Prop :=
  ∃ v, clientBuild.Speaks v ∧ serverBuild.Speaks v

/-- What was archived, and fits a frame, is read back as it was. -/
def Wire.RoundTrips {α : Type} (w : Wire α) : Prop :=
  ∀ x bytes, w.encode x = .ok bytes → bytes.length ≤ maxPayload → w.decode bytes = .ok x

namespace JrpConn

/-- The peer has all the capabilities of the mask. -/
def peerSupports (c : JrpConn) (cap : U32) : Bool := c.peerCaps &&& cap = cap

/-- The connection after any number of streams were opened on it. -/
inductive Later (c : JrpConn) : JrpConn → Prop
  | now : Later c c
  | nextStream {c' : JrpConn} : Later c c' → Later c c'.nextStream.1

end JrpConn

/-- All that is sent in a handshake, and how it ends on both sides. -/
structure Negotiation where
  sent : List UInt8
  answer : List UInt8
  client : Except ConnError (JrpConn × HelloAck)
  server : Except ConnError (JrpConn × Hello)

/-- A client of one build against a server of another. A handshake that fails closes the
connection. -/
def negotiate (clientBuild serverBuild : Build) (codec : Codec)
    (clientAgent serverAgent session : String) : Negotiation :=
  let (c, hello) := (JrpConn.client clientBuild).clientHello clientBuild codec clientAgent
  let sent := match hello with
    | .error _ => []
    | .ok bytes => bytes
  let (answer, server) :=
    (JrpConn.server serverBuild).serverHandshake serverBuild codec serverAgent session sent
  { sent, answer, client := hello.bind fun _ => c.clientFinish clientBuild codec answer, server }

/-- The server answered that the versions do not match, and that is what the client failed with. -/
def Negotiation.Told (n : Negotiation) (codec : Codec) : Prop :=
  ∃ (frame : Frame) (message : String), n.answer = frame.encode ∧
    frame.header.msgType = .error ∧
    codec.errorMsg.decode frame.payload = .ok ⟨Code.versionMismatch, message⟩ ∧
    n.client = .error (.peer Code.versionMismatch message)

/-- Whatever `c` of one build sends from now on, the other build takes for a frame. -/
def Heard (c : JrpConn) (build peer : Build) : Prop :=
  ∀ c', c.Later c' → ∀ (m : Message) (bytes : List UInt8),
    c'.send build m.wire m.msgType m.streamId m.value m.flags = .ok bytes →
      ∃ header, FrameHeader.decode peer (bytes.take headerLen) = .ok header ∧
        header.version = c.version

/-- What the two ends of a handshake agree on. -/
structure Agreed (clientBuild serverBuild : Build) (c s : JrpConn) : Prop where
  version : c.version = s.version
  client_speaks : clientBuild.Speaks s.version
  server_speaks : serverBuild.Speaks s.version
  highest : ∀ v, clientBuild.Speaks v → serverBuild.Speaks v → v ≤ s.version
  client_heard : Heard c clientBuild serverBuild
  server_heard : Heard s serverBuild clientBuild
  supports : ∀ cap, cap &&& serverBuild.caps = cap → c.peerSupports cap = s.peerSupports cap

end Jetrun
