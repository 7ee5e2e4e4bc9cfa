import Jetrun.Negotiation
import Jetrun.Proofs.Framing

/-!
# Two ends that both get through

A client only ends a handshake well if the server did, and what it then knows was read from the
server's one answer. So the ends agree on the version and on the capabilities of the server that the
client has (`negotiate_agreed`). A client that has no version in common with the server does not get
that far: its first frame is stamped with a version that the server does not speak, and a server
does not answer what it cannot read (`incompatible_untold`).
-/

namespace Jetrun

namespace JrpConn

section Frames

variable {α : Type} {wire : Wire α}

theorem recv_frame {build : Build} {frame : Frame}
    (hlen : (frame.header.payloadLen : ℕ) = frame.payload.length)
    (hsmall : frame.payload.length ≤ maxPayload) :
    recv build frame.encode =
      if frame.header.version < build.minVersion ∨ build.version < frame.header.version then
        .error (.frame (.unsupportedVersion frame.header.version))
      else .ok (frame, []) := by
  have hrecv := recv_encode build hlen hsmall []
  rwa [List.append_nil] at hrecv

/-- A frame that was sent and then received carries what was sent. -/
theorem decode_of_send (hwire : wire.RoundTrips) {c : JrpConn} {build peer : Build}
    {msgType : MsgType} {streamId : U32} {value : α} {flags : U16} {bytes rest : List UInt8}
    {frame : Frame} (hsend : c.send build wire msgType streamId value flags = .ok bytes)
    (hrecv : recv peer bytes = .ok (frame, rest)) :
    wire.decode frame.payload = .ok value := by
  obtain ⟨sent, hsent, hsmall, rfl⟩ :=
    send_ok (m := ⟨α, wire, msgType, streamId, value, flags⟩) hsend
  rw [recv_frame hsent.payloadLen hsmall] at hrecv
  split_ifs at hrecv
  cases hrecv
  exact hwire _ _ hsent.payload hsmall

end Frames

section Later

variable {c : JrpConn} {build peer : Build}

theorem Later.version_eq : ∀ {c' : JrpConn}, c.Later c' → c'.version = c.version
  | _, .now => rfl
  | _, .nextStream h => h.version_eq

theorem heard_of_speaks (h : peer.Speaks c.version) : Heard c build peer := by
  intro c' hc' m bytes hsend
  obtain ⟨frame, hframe, hsmall, rfl⟩ := send_ok hsend
  have hversion : frame.header.version = c.version := by
    rw [hframe.header]
    exact hc'.version_eq
  refine ⟨frame.header, ?_, hversion⟩
  rw [Frame.encode, ← frame.header.length_encode, List.take_left,
    FrameHeader.decode_encode peer (hframe.payloadLen ▸ hsmall), hversion,
    if_neg (not_or.2 ⟨not_lt.2 h.1, not_lt.2 h.2⟩)]

/-- A mask of the server's capabilities does not tell the server's own from the common ones. -/
theorem peerSupports_land {s : JrpConn} {caps cap : U32} (hcap : cap &&& caps = cap)
    (hc : c.peerCaps = caps &&& s.peerCaps) : c.peerSupports cap = s.peerSupports cap := by
  have hcap : (cap : ℕ) &&& caps = cap := by rw [← Fin.and_val, hcap]
  have hmask : (caps &&& s.peerCaps) &&& cap = s.peerCaps &&& cap := by
    apply Fin.ext
    simp only [Fin.and_val]
    rw [Nat.and_assoc, Nat.and_comm, Nat.and_assoc, hcap]
  simp only [peerSupports, hc, hmask]

end Later

section Ends

variable {c : JrpConn} {build : Build} {codec : Codec}

/-- What a client that gets through has read. -/
theorem clientFinish_eq_ok {arrived : List UInt8} {c' : JrpConn} {ack : HelloAck}
    (h : c.clientFinish build codec arrived = .ok (c', ack)) :
    ∃ frame rest, recv build arrived = .ok (frame, rest) ∧
      codec.helloAck.decode frame.payload = .ok ack ∧ build.Speaks ack.version ∧
      c' = { c with version := ack.version, peerCaps := ack.capabilities } := by
  obtain ⟨⟨frame, rest⟩, hrecv, h⟩ := Except.eq_ok_of_bind h
  rcases htype : frame.header.msgType <;> simp only [htype] at h
  case helloAck =>
    obtain ⟨ack', hack, h⟩ := Except.eq_ok_of_bind h
    have hdecode : codec.helloAck.decode frame.payload = .ok ack' := Except.eq_ok_of_mapError hack
    split_ifs at h with hversion
    · cases h
    · cases h
      rw [not_or, not_lt, not_lt] at hversion
      exact ⟨frame, rest, hrecv, hdecode, hversion, rfl⟩
  case error =>
    obtain ⟨e, -, h⟩ := Except.eq_ok_of_bind h
    cases h
  all_goals cases h

theorem refuse_ne_ok {streamId : U32} {code : U16} {message : String} {e : ConnError}
    {answer : List UInt8} {served : JrpConn × Hello} :
    c.refuse build codec streamId code message e ≠ (answer, .ok served) := by
  intro h
  unfold refuse at h
  split at h <;> cases h

/-- What a server that gets through has read, and what it answered. -/
theorem serverHandshake_eq_ok {agent session : String} {arrived answer : List UInt8} {s : JrpConn}
    {hello : Hello}
    (h : c.serverHandshake build codec agent session arrived = (answer, .ok (s, hello))) :
    ∃ frame rest, recv build arrived = .ok (frame, rest) ∧
      codec.hello.decode frame.payload = .ok hello ∧
      build.minVersion ≤ min build.version hello.maxVersion ∧
      hello.minVersion ≤ min build.version hello.maxVersion ∧
      s = { c with version := min build.version hello.maxVersion, peerCaps := hello.capabilities } ∧
      s.send build codec.helloAck .helloAck frame.header.streamId
        ⟨agent, s.version, build.caps &&& s.peerCaps, session⟩ Flags.none = .ok answer := by
  unfold serverHandshake at h
  rcases hrecv : recv build arrived with e | ⟨frame, rest⟩ <;> simp only [hrecv] at h
  · cases h
  split_ifs at h with htype
  · exact absurd h refuse_ne_ok
  rcases hdecode : codec.hello.decode frame.payload with e | hello' <;>
    simp only [decodeAs, hdecode, Except.mapError] at h
  · cases h
  rcases hvalid : hello'.validate with e | u <;> simp only [hvalid] at h
  · exact absurd h refuse_ne_ok
  split_ifs at h with hversion
  · exact absurd h refuse_ne_ok
  split at h
  · cases h
  · rename_i bytes hsend
    cases h
    rw [not_or, not_lt, not_lt] at hversion
    exact ⟨frame, rest, rfl, hdecode, hversion.1, hversion.2, rfl, hsend⟩

end Ends

end JrpConn

section Negotiate

variable {cb sb : Build} {codec : Codec} {clientAgent serverAgent session : String}

open JrpConn

/-- The handshake is what is known at the end of a negotiation. -/
theorem handshake_eq (ulid : Ulid) :
    handshake cb sb codec clientAgent serverAgent ulid =
      ((negotiate cb sb codec clientAgent serverAgent ulid.text).client,
        (negotiate cb sb codec clientAgent serverAgent ulid.text).server) := rfl

/-- A client that got through had sent its first message, and read the answer to it. -/
theorem negotiate_client {c : JrpConn} {ack : HelloAck}
    (h : (negotiate cb sb codec clientAgent serverAgent session).client = .ok (c, ack)) :
    (JrpConn.client cb).nextStream.1.send cb codec.hello .hello 1
        ⟨clientAgent, cb.minVersion, cb.version, cb.caps⟩ Flags.none
      = .ok (negotiate cb sb codec clientAgent serverAgent session).sent ∧
    (JrpConn.client cb).nextStream.1.clientFinish cb codec
        (negotiate cb sb codec clientAgent serverAgent session).answer = .ok (c, ack) := by
  rcases hsend : (JrpConn.client cb).nextStream.1.send cb codec.hello .hello 1
    ⟨clientAgent, cb.minVersion, cb.version, cb.caps⟩ Flags.none with e | sent
  · have hclient : (JrpConn.client cb).clientHello cb codec clientAgent
        = ((JrpConn.client cb).nextStream.1, .error e) := congrArg (Prod.mk _) hsend
    simp only [negotiate, hclient, Except.bind] at h
    cases h
  · have hclient : (JrpConn.client cb).clientHello cb codec clientAgent
        = ((JrpConn.client cb).nextStream.1, .ok sent) := congrArg (Prod.mk _) hsend
    simp only [negotiate, hclient, Except.bind] at h ⊢
    exact ⟨trivial, h⟩

/-- The server's half, on what the client sent. -/
theorem negotiate_server :
    (JrpConn.server sb).serverHandshake sb codec serverAgent session
        (negotiate cb sb codec clientAgent serverAgent session).sent =
      ((negotiate cb sb codec clientAgent serverAgent session).answer,
        (negotiate cb sb codec clientAgent serverAgent session).server) := rfl

/-- Two ends that both got through hold the highest version that both speak, hear what the other
sends from then on, and tell the same of every capability of the server. -/
theorem negotiate_agreed (hhello : codec.hello.RoundTrips) (hack : codec.helloAck.RoundTrips)
    {c s : JrpConn} {ack : HelloAck} {hello : Hello}
    (hc : (negotiate cb sb codec clientAgent serverAgent session).client = .ok (c, ack))
    (hs : (negotiate cb sb codec clientAgent serverAgent session).server = .ok (s, hello)) :
    Agreed cb sb c s := by
  obtain ⟨hsend, hfinish⟩ := negotiate_client hc
  have hserved : (JrpConn.server sb).serverHandshake sb codec serverAgent session
      (negotiate cb sb codec clientAgent serverAgent session).sent = (_, _) := negotiate_server
  rw [hs] at hserved
  obtain ⟨frame, rest, hrecv, hread, hlo, hlo', hserver, hanswer⟩ := serverHandshake_eq_ok hserved
  obtain rfl := Except.ok.inj (hread.symm.trans (decode_of_send hhello hsend hrecv))
  obtain ⟨frame', rest', hrecv', hread', hspeaks, hclient⟩ := clientFinish_eq_ok hfinish
  obtain rfl := Except.ok.inj (hread'.symm.trans (decode_of_send hack hanswer hrecv'))
  have hversion : s.version = min sb.version cb.version := by rw [hserver]
  have hsame : c.version = s.version := by rw [hclient]
  have hsb : sb.Speaks s.version := by
    rw [hversion]
    exact ⟨hlo, min_le_left _ _⟩
  refine ⟨hsame, hspeaks, hsb, fun v hv hv' => ?_, heard_of_speaks (hsame ▸ hsb),
    heard_of_speaks hspeaks, fun cap hcap => peerSupports_land hcap ?_⟩
  · rw [hversion]
    exact le_min hv'.2 hv.2
  · rw [hclient]

theorem not_speaks_of_not_overlap (h : ¬Overlap cb sb) : ¬sb.Speaks cb.version :=
  fun hspeaks => h ⟨cb.version, ⟨cb.min_le, le_rfl⟩, hspeaks⟩

/-- The first message of a client whose highest version the server does not speak is refused before
it is read, and the server closes the connection. -/
theorem negotiate_of_not_speaks (h : ¬sb.Speaks cb.version) {sent : List UInt8}
    (hsend : (JrpConn.client cb).nextStream.1.send cb codec.hello .hello 1
      ⟨clientAgent, cb.minVersion, cb.version, cb.caps⟩ Flags.none = .ok sent) :
    negotiate cb sb codec clientAgent serverAgent session =
      { sent
        answer := []
        client := .error .unexpectedEof
        server := .error (.frame (.unsupportedVersion cb.version)) } := by
  obtain ⟨frame, hframe, hsmall, rfl⟩ :=
    send_ok (m := ⟨Hello, codec.hello, .hello, 1, _, Flags.none⟩) hsend
  have hversion : frame.header.version = cb.version := by
    rw [hframe.header]
    rfl
  have hrecv : recv sb frame.encode = .error (.frame (.unsupportedVersion cb.version)) := by
    rw [recv_frame hframe.payloadLen hsmall, hversion]
    rw [Build.Speaks, not_and_or, not_le, not_le] at h
    exact if_pos h
  have hclient : (JrpConn.client cb).clientHello cb codec clientAgent
      = ((JrpConn.client cb).nextStream.1, .ok frame.encode) := congrArg (Prod.mk _) hsend
  simp only [negotiate, hclient, serverHandshake, hrecv, Except.bind]
  rfl

/-- Nothing that is sent is nothing that is answered. -/
theorem negotiate_of_unsent {e : ConnError}
    (hsend : (JrpConn.client cb).nextStream.1.send cb codec.hello .hello 1
      ⟨clientAgent, cb.minVersion, cb.version, cb.caps⟩ Flags.none = .error e) :
    negotiate cb sb codec clientAgent serverAgent session =
      { sent := [], answer := [], client := .error e, server := .error .unexpectedEof } := by
  have hclient : (JrpConn.client cb).clientHello cb codec clientAgent
      = ((JrpConn.client cb).nextStream.1, .error e) := congrArg (Prod.mk _) hsend
  simp only [negotiate, hclient, Except.bind]
  rfl

/-- A client that has no version in common with the server is never told so: the server answers
nothing, and the client finds the connection closed. -/
theorem incompatible_untold (h : ¬Overlap cb sb) :
    ¬(negotiate cb sb codec clientAgent serverAgent session).Told codec ∧
      (negotiate cb sb codec clientAgent serverAgent session).answer = [] ∧
      ∀ sent, (JrpConn.client cb).nextStream.1.send cb codec.hello .hello 1
          ⟨clientAgent, cb.minVersion, cb.version, cb.caps⟩ Flags.none = .ok sent →
        (negotiate cb sb codec clientAgent serverAgent session).client = .error .unexpectedEof := by
  have hquiet : (negotiate cb sb codec clientAgent serverAgent session).answer = [] := by
    rcases hsend : (JrpConn.client cb).nextStream.1.send cb codec.hello .hello 1
      ⟨clientAgent, cb.minVersion, cb.version, cb.caps⟩ Flags.none with e | sent
    · rw [negotiate_of_unsent hsend]
    · rw [negotiate_of_not_speaks (not_speaks_of_not_overlap h) hsend]
  refine ⟨?_, hquiet, fun sent hsend => ?_⟩
  · rintro ⟨frame, message, hanswer, -⟩
    have hlen := congrArg List.length (hquiet.symm.trans hanswer)
    simp only [Frame.encode, List.length_append, FrameHeader.length_encode, headerLen,
      List.length_nil] at hlen
    omega
  · rw [negotiate_of_not_speaks (not_speaks_of_not_overlap h) hsend]

end Negotiate

section Sample

theorem sampleCodec_hello : sampleCodec.hello.RoundTrips := by
  intro h bytes hencode hlen
  have hsize : h.text ≤ maxPayload := by
    cases hencode
    simp only [List.length_append, length_plainText] at hlen
    rw [Hello.text]
    omega
  obtain ⟨bytes', hencode', -, hdecode⟩ := sampleCodec_faithful.hello h hsize
  rwa [← Except.ok.inj (hencode'.symm.trans hencode)]

theorem sampleCodec_helloAck : sampleCodec.helloAck.RoundTrips := by
  intro a bytes hencode hlen
  have hsize : a.text ≤ maxPayload := by
    cases hencode
    simp only [List.length_append, length_plainText] at hlen
    rw [HelloAck.text]
    omega
  obtain ⟨bytes', hencode', -, hdecode⟩ := sampleCodec_faithful.helloAck a hsize
  rwa [← Except.ok.inj (hencode'.symm.trans hencode)]

/-- A client of this repository's build and a server of the next one. -/
theorem current_next_agreed : ∃ c s ack hello,
    (negotiate currentBuild nextBuild sampleCodec "cli" "srv" "session").client = .ok (c, ack) ∧
    (negotiate currentBuild nextBuild sampleCodec "cli" "srv" "session").server = .ok (s, hello) ∧
    Agreed currentBuild nextBuild c s := by
  obtain ⟨c, ack, hc⟩ : ∃ c ack, (negotiate currentBuild nextBuild sampleCodec "cli" "srv"
      "session").client = .ok (c, ack) := ⟨_, _, rfl⟩
  obtain ⟨s, hello, hs⟩ : ∃ s hello, (negotiate currentBuild nextBuild sampleCodec "cli" "srv"
      "session").server = .ok (s, hello) := ⟨_, _, rfl⟩
  exact ⟨c, s, ack, hello, hc, hs,
    negotiate_agreed sampleCodec_hello sampleCodec_helloAck hc hs⟩

/-- A build that has given up the version of this repository's. -/
def laterBuild : Build := ⟨2, 2, 15, by decide⟩

theorem later_not_overlap : ¬Overlap laterBuild currentBuild := by
  rintro ⟨v, ⟨hlo, -⟩, -, hhi⟩
  exact absurd (hlo.trans hhi) (by decide)

/-- A client of that build against a server of this one. -/
theorem later_closed :
    (negotiate laterBuild currentBuild sampleCodec "cli" "srv" "session").client
      = .error .unexpectedEof ∧
    ¬∀ cb sb : Build, ¬Overlap cb sb →
      (negotiate cb sb sampleCodec "cli" "srv" "session").Told sampleCodec := by
  have hclosed : (negotiate laterBuild currentBuild sampleCodec "cli" "srv" "session").client
      = .error .unexpectedEof := by decide +kernel
  refine ⟨hclosed, fun h => ?_⟩
  obtain ⟨frame, message, -, -, -, htold⟩ := h laterBuild currentBuild later_not_overlap
  cases hclosed.symm.trans htold

theorem later_untold :
    ¬(negotiate laterBuild currentBuild sampleCodec "cli" "srv" "session").Told sampleCodec ∧
      (negotiate laterBuild currentBuild sampleCodec "cli" "srv" "session").answer = [] := by
  obtain ⟨huntold, hquiet, -⟩ :=
    @incompatible_untold laterBuild currentBuild sampleCodec "cli" "srv" "session" later_not_overlap
  exact ⟨huntold, hquiet⟩

end Sample

end Jetrun
