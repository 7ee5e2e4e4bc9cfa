import Jetrun.Conn
import Jetrun.Proofs.Tree

/-!
# Version negotiation across builds

A client stamps its own highest version into its first frame, before anything is negotiated, and a
server refuses a frame whose version it does not speak. So where the ranges overlap the handshake
agrees on the highest common version exactly if the client's highest version is one the server
speaks (`handshake_iff`).
-/

namespace Jetrun

open LittleEndian

section Frames

namespace MsgType

theorem fromU16_toU16 (t : MsgType) : fromU16 t.toU16 = some t := by cases t <;> rfl

end MsgType

namespace FrameHeader

theorem length_encode (h : FrameHeader) : h.encode.length = headerLen := by
  simp [encode, magic, headerLen]

theorem ofLe_u16 (n : U16) : ofLe (toLe 2 n) = n := ofLe_toLe (by simp)

theorem ofLe_u32 (n : U32) : ofLe (toLe 4 n) = n := ofLe_toLe (by simp)

/-- The fields of an encoded header stand where the decoder looks for them. -/
theorem field_encode (h : FrameHeader) :
    field h.encode 2 2 = h.version ∧ field h.encode 4 2 = h.msgType.toU16 ∧
      field h.encode 6 2 = h.flags ∧ field h.encode 8 4 = h.streamId ∧
        field h.encode 12 4 = h.payloadLen :=
  ⟨ofLe_u16 h.version, ofLe_u16 h.msgType.toU16, ofLe_u16 h.flags, ofLe_u32 h.streamId,
    ofLe_u32 h.payloadLen⟩

theorem decode_encode (build : Build) {h : FrameHeader} (hp : (h.payloadLen : ℕ) ≤ maxPayload) :
    decode build h.encode =
      if h.version < build.minVersion ∨ build.version < h.version then
        .error (.unsupportedVersion h.version)
      else .ok h := by
  obtain ⟨hv, ht, hf, hs, hl⟩ := field_encode h
  have hmagic : h.encode.take 2 = magic := rfl
  simp only [decode, hmagic, hv, ht, hf, hs, hl, MsgType.fromU16_toU16, ne_eq, not_true_eq_false,
    if_false, Fin.lt_def, if_neg hp.not_gt, Fin.ofNat_eq_cast, Fin.cast_val_eq_self]

end FrameHeader

namespace JrpConn

theorem recv_encode (build : Build) {h : FrameHeader} {payload : List UInt8}
    (hlen : (h.payloadLen : ℕ) = payload.length) (hp : payload.length ≤ maxPayload)
    (rest : List UInt8) :
    recv build (h.encode ++ payload ++ rest) =
      if h.version < build.minVersion ∨ build.version < h.version then
        .error (.frame (.unsupportedVersion h.version))
      else .ok (⟨h, payload⟩, rest) := by
  have hl := h.length_encode
  have hge : ¬ (h.encode ++ payload ++ rest).length < headerLen := by simp [hl]
  rw [recv, if_neg hge, ← hl, List.append_assoc, List.take_left, List.drop_left,
    FrameHeader.decode_encode build (hlen ▸ hp)]
  split_ifs <;> simp [hlen]

end JrpConn

end Frames

namespace JrpConn

section Send

variable {α : Type} {wire : Wire α} {text : α → ℕ}

/-- A frame that carries `x` and was sent by `c`. -/
structure Carries (wire : Wire α) (c : JrpConn) (msgType : MsgType) (streamId : U32) (x : α)
    (frame : Frame) : Prop where
  version : frame.header.version = c.version
  msgType : frame.header.msgType = msgType
  streamId : frame.header.streamId = streamId
  payload : wire.decode frame.payload = .ok x

/-- What is sent arrives, if the receiver speaks the version it is stamped with. -/
theorem recv_send (hf : wire.Faithful text) (c : JrpConn) (build : Build) (msgType : MsgType)
    (streamId : U32) {x : α} (flags : U16) (hx : text x + archiveOverhead ≤ maxPayload) :
    ∃ bytes frame, c.send build wire msgType streamId x flags = .ok bytes ∧
      Carries wire c msgType streamId x frame ∧
      ∀ peer : Build, recv peer bytes =
        if c.version < peer.minVersion ∨ peer.version < c.version then
          .error (.frame (.unsupportedVersion c.version))
        else .ok (frame, []) := by
  obtain ⟨payload, henc, hlen, hdec⟩ := hf x (by omega)
  have hp : payload.length ≤ maxPayload := hlen.trans hx
  have hsmall : payload.length < 2 ^ 32 := lt_of_le_of_lt hp (by decide)
  let header : FrameHeader := ⟨c.version, msgType, flags, streamId, Fin.ofNat _ payload.length⟩
  refine ⟨header.encode ++ payload, ⟨header, payload⟩, ?_, ⟨rfl, rfl, rfl, hdec⟩, fun peer => ?_⟩
  · simp only [send, henc, if_neg hp.not_gt]
    rfl
  · have hrecv := recv_encode peer (h := header) (Nat.mod_eq_of_lt hsmall) hp []
    rwa [List.append_nil] at hrecv

end Send

end JrpConn

section Handshake

variable {cb sb : Build} {codec : Codec} {clientAgent serverAgent : String} {session : Ulid}

open JrpConn

theorem validate_hello (h : clientAgent.utf8ByteSize ≤ Limits.maxAgentLen) :
    Hello.validate ⟨clientAgent, cb.minVersion, cb.version, cb.caps⟩ = .ok () := by
  simp only [Hello.validate, bounded, if_neg h.not_gt, if_neg cb.min_le.not_gt]
  rfl

/-- A server that speaks the client's highest version answers with it. -/
theorem serverHandshake_ok (session : Ulid) (hf : codec.Faithful) (hlo : cb.minVersion ≤ sb.version)
    (hhi : sb.minVersion ≤ cb.version) (hs : serverAgent.utf8ByteSize ≤ Limits.maxAgentLen)
    (hc : clientAgent.utf8ByteSize ≤ Limits.maxAgentLen) {sent : List UInt8} {frame : Frame}
    {c : JrpConn} {streamId : U32}
    (hcarry : Carries codec.hello c .hello streamId
      ⟨clientAgent, cb.minVersion, cb.version, cb.caps⟩ frame)
    (hrecv : recv sb sent = .ok (frame, [])) :
    ∃ bytes frame' ack, (JrpConn.server sb).serverHandshake sb codec serverAgent session.text sent
        = (bytes, .ok ({ JrpConn.server sb with
            version := min sb.version cb.version, peerCaps := cb.caps },
          ⟨clientAgent, cb.minVersion, cb.version, cb.caps⟩)) ∧
      ack.version = min sb.version cb.version ∧
      Carries codec.helloAck { JrpConn.server sb with
        version := min sb.version cb.version, peerCaps := cb.caps } .helloAck streamId ack frame' ∧
      ∀ peer : Build, recv peer bytes =
        if min sb.version cb.version < peer.minVersion ∨
            peer.version < min sb.version cb.version then
          .error (.frame (.unsupportedVersion (min sb.version cb.version)))
        else .ok (frame', []) := by
  have hlow : ¬ (min sb.version cb.version < sb.minVersion ∨
      min sb.version cb.version < cb.minVersion) := by
    rw [not_or, not_lt, not_lt]
    exact ⟨le_min sb.min_le hhi, le_min hlo cb.min_le⟩
  have hsize : serverAgent.utf8ByteSize + session.text.utf8ByteSize + archiveOverhead
      ≤ maxPayload := by
    rw [session.size]
    simp only [Limits.maxAgentLen] at hs
    simp only [archiveOverhead, maxPayload]
    omega
  obtain ⟨bytes, frame', hsend, hcarry', hrecv'⟩ := recv_send hf.helloAck
    { JrpConn.server sb with version := min sb.version cb.version, peerCaps := cb.caps }
    sb .helloAck streamId Flags.none
    (x := ⟨serverAgent, min sb.version cb.version, sb.caps &&& cb.caps, session.text⟩) hsize
  refine ⟨bytes, frame', _, ?_, rfl, hcarry', hrecv'⟩
  simp only [serverHandshake, hrecv, hcarry.msgType, ne_eq, not_true_eq_false, if_false, decodeAs,
    hcarry.payload, Except.mapError, validate_hello hc, if_neg hlow, hcarry.streamId, hsend]

/-- Where the ranges overlap, both ends of a handshake succeed with the highest common version if
and only if the client's highest version is one the server speaks. -/
theorem handshake_iff (hf : codec.Faithful) (hlo : cb.minVersion ≤ sb.version)
    (hhi : sb.minVersion ≤ cb.version) (hc : clientAgent.utf8ByteSize ≤ Limits.maxAgentLen)
    (hs : serverAgent.utf8ByteSize ≤ Limits.maxAgentLen) :
    (∃ c ack s hello, handshake cb sb codec clientAgent serverAgent session
        = (.ok (c, ack), .ok (s, hello)) ∧
      c.version = min cb.version sb.version ∧ s.version = min cb.version sb.version) ↔
      cb.version ≤ sb.version := by
  let hello : Hello := ⟨clientAgent, cb.minVersion, cb.version, cb.caps⟩
  have hsize : hello.text + archiveOverhead ≤ maxPayload := by
    simp only [Limits.maxAgentLen] at hc
    simp only [hello, Hello.text, archiveOverhead, maxPayload]
    omega
  obtain ⟨sent, frame, hsend, hcarry, hrecv⟩ :=
    recv_send hf.hello (JrpConn.client cb).nextStream.1 cb .hello 1 Flags.none hsize
  have hclient : (JrpConn.client cb).clientHello cb codec clientAgent
      = ((JrpConn.client cb).nextStream.1, .ok sent) := by
    rw [← hsend]
    rfl
  constructor
  · rintro ⟨c, ack, s, hello, heq, -, -⟩
    by_contra hlt
    have hserver : recv sb sent = .error (.frame (.unsupportedVersion cb.version)) := by
      rw [hrecv sb]
      exact if_pos (.inr (not_le.1 hlt))
    have hserved := congrArg Prod.snd heq
    simp [handshake, hclient, serverHandshake, hserver] at hserved
  · intro hle
    have hmin : min sb.version cb.version = cb.version := min_eq_right hle
    have hserver : recv sb sent = .ok (frame, []) := by
      rw [hrecv sb]
      exact if_neg (not_or.2 ⟨not_lt.2 hhi, not_lt.2 hle⟩)
    obtain ⟨bytes, frame', ack, hserved, hack, hcarry', hanswer⟩ :=
      serverHandshake_ok session hf hlo hhi hs hc hcarry hserver
    rw [hmin] at hserved hack hanswer
    have hfin : recv cb bytes = .ok (frame', []) := by
      rw [hanswer cb]
      exact if_neg (not_or.2 ⟨not_lt.2 cb.min_le, lt_irrefl _⟩)
    have hrange : ¬ (ack.version < cb.minVersion ∨ cb.version < ack.version) := by
      rw [hack]
      exact not_or.2 ⟨not_lt.2 cb.min_le, lt_irrefl _⟩
    refine ⟨{ (JrpConn.client cb).nextStream.1 with
        version := ack.version, peerCaps := ack.capabilities }, ack,
      { JrpConn.server sb with version := cb.version, peerCaps := cb.caps },
      ⟨clientAgent, cb.minVersion, cb.version, cb.caps⟩, ?_,
      hack.trans (min_eq_left hle).symm, (min_eq_left hle).symm⟩
    simp only [handshake, hclient, hserved, Except.bind, clientFinish, hfin, bind,
      hcarry'.msgType, decodeAs, hcarry'.payload, Except.mapError, if_neg hrange, pure, Except.pure]

end Handshake

section Sample

/-- A length and the text itself. -/
def plainText (s : String) : List UInt8 := toLe 4 (Utf8.encode s).length ++ Utf8.encode s

def readText (r : Reader) : Except TreeError (String × Reader) := do
  let (n, r) ← r.u32
  r.text n

theorem readText_plainText {s : String} (h : s.utf8ByteSize ≤ maxPayload) (r : Reader) :
    readText (plainText s ++ r) = .ok (s, r) := by
  have hlen : (Utf8.encode s).length < 256 ^ 4 :=
    lt_of_le_of_lt (Utf8.length_encode s ▸ h) (by decide)
  simp only [readText, plainText, List.append_assoc, Reader.u32, Reader.number_toLe _ hlen, bind,
    Except.bind, Reader.text_encode]

theorem u16_toLe (n : U16) (r : Reader) : Reader.u16 (toLe 2 n ++ r) = .ok ((n : ℕ), r) :=
  Reader.number_toLe _ n.isLt r

theorem u32_toLe (n : U32) (r : Reader) : Reader.u32 (toLe 4 n ++ r) = .ok ((n : ℕ), r) :=
  Reader.number_toLe _ n.isLt r

/-- The fields one after another, each text after its length. -/
def sampleCodec : Codec where
  hello :=
    { encode := fun h => .ok (plainText h.agent ++ (toLe 2 h.minVersion ++ (toLe 2 h.maxVersion
        ++ toLe 4 h.capabilities)))
      decode := fun b => Except.mapError (fun _ => .decode "hello") do
        let (agent, r) ← readText b
        let (minVersion, r) ← r.u16
        let (maxVersion, r) ← r.u16
        let (capabilities, _) ← r.u32
        pure ⟨agent, Fin.ofNat _ minVersion, Fin.ofNat _ maxVersion, Fin.ofNat _ capabilities⟩ }
  helloAck :=
    { encode := fun a => .ok (plainText a.agent ++ (toLe 2 a.version ++ (toLe 4 a.capabilities
        ++ plainText a.session)))
      decode := fun b => Except.mapError (fun _ => .decode "hello ack") do
        let (agent, r) ← readText b
        let (version, r) ← r.u16
        let (capabilities, r) ← r.u32
        let (session, _) ← readText r
        pure ⟨agent, Fin.ofNat _ version, Fin.ofNat _ capabilities, session⟩ }
  errorMsg :=
    { encode := fun e => .ok (toLe 2 e.code ++ plainText e.message)
      decode := fun b => Except.mapError (fun _ => .decode "error") do
        let (code, r) ← Reader.u16 b
        let (message, _) ← readText r
        pure ⟨Fin.ofNat _ code, message⟩ }

theorem length_plainText (s : String) : (plainText s).length = 4 + s.utf8ByteSize := by
  simp [plainText, Utf8.length_encode]

theorem sampleCodec_faithful : sampleCodec.Faithful where
  hello h hh := by
    refine ⟨_, rfl, ?_, ?_⟩
    · simp [length_plainText, Hello.text, archiveOverhead]
      omega
    · have hlast := u32_toLe h.capabilities []
      rw [List.append_nil] at hlast
      simp [sampleCodec, readText_plainText hh, u16_toLe, hlast, bind, Except.bind, pure,
        Except.pure, Except.mapError]
  helloAck a ha := by
    have h1 : a.agent.utf8ByteSize ≤ maxPayload := (Nat.le_add_right _ _).trans ha
    have h2 : a.session.utf8ByteSize ≤ maxPayload := (Nat.le_add_left _ _).trans ha
    refine ⟨_, rfl, ?_, ?_⟩
    · simp [length_plainText, HelloAck.text, archiveOverhead]
      omega
    · have hlast := readText_plainText h2 []
      rw [List.append_nil] at hlast
      simp [sampleCodec, readText_plainText h1, hlast, u16_toLe, u32_toLe, bind, Except.bind, pure,
        Except.pure, Except.mapError]
  errorMsg e he := by
    refine ⟨_, rfl, ?_, ?_⟩
    · simp [length_plainText, ErrorMsg.text, archiveOverhead]
      omega
    · have hlast := readText_plainText (s := e.message) he []
      rw [List.append_nil] at hlast
      simp [sampleCodec, hlast, u16_toLe, bind, Except.bind, pure, Except.pure, Except.mapError]

def sampleSession : Ulid :=
  .ofText "01H8XGJWBWBAQ4Z7RQX0K3M5TN" rfl (by decide +kernel) (by decide +kernel)

/-- The build of this repository, and the next one, which still speaks its version. -/
def currentBuild : Build := ⟨1, 1, 15, by decide⟩

def nextBuild : Build := ⟨1, 2, 15, by decide⟩

/-- An upgraded client does not get through to a server that is not upgraded yet. -/
theorem handshake_fails :
    nextBuild.minVersion ≤ currentBuild.version ∧ currentBuild.minVersion ≤ nextBuild.version ∧
      handshake nextBuild currentBuild sampleCodec "cli" "srv" sampleSession
        = (.error .unexpectedEof, .error (.frame (.unsupportedVersion 2))) := by decide +kernel

/-- The other way round they agree on the older version. -/
theorem handshake_agrees :
    ∃ c ack s hello, handshake currentBuild nextBuild sampleCodec "cli" "srv" sampleSession
        = (.ok (c, ack), .ok (s, hello)) ∧ c.version = 1 ∧ s.version = 1 :=
  (handshake_iff sampleCodec_faithful (by decide) (by decide) (by decide) (by decide)).2 (by decide)

end Sample

end Jetrun
