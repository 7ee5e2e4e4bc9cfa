import Jetrun.Framing
import Jetrun.Proofs.Conn

/-!
# Nothing is lost between two ends of a stream

Each reader has its law in both directions: what was written is read, and what is read is what was
there. They are the same for a stream in pieces as for one in one piece (`recvFrom_flatten`), so a
list of frames goes through a stream frame by frame (`framing_lossless`).
-/

namespace Jetrun

open LittleEndian

namespace MsgType

theorem toU16_of_fromU16 {v : ℕ} {t : MsgType} (h : fromU16 v = some t) : (t.toU16 : ℕ) = v := by
  unfold fromU16 at h
  split at h <;> cases h <;> rfl

end MsgType

namespace FrameHeader

theorem field_lt (b : List UInt8) (start width : ℕ) : field b start width < 256 ^ width := by
  refine (ofLe_lt _).trans_le (Nat.pow_le_pow_right (by decide) ?_)
  simp

/-- The bytes of a field are those of its number. -/
theorem toLe_field {b : List UInt8} {start width : ℕ} (h : start + width ≤ b.length) :
    toLe width (field b start width) = (b.drop start).take width := by
  have hlen : ((b.drop start).take width).length = width := by
    rw [List.length_take, List.length_drop]
    omega
  have hback := toLe_ofLe ((b.drop start).take width)
  rwa [hlen] at hback

theorem take_take_drop (b : List UInt8) (start width : ℕ) :
    b.take start ++ (b.drop start).take width = b.take (start + width) :=
  (List.take_add).symm

/-- The header that is decoded is the one that was encoded. -/
theorem decode_ok {build : Build} {b : List UInt8} {h : FrameHeader} (hb : b.length = headerLen)
    (hd : decode build b = .ok h) :
    h.encode = b ∧ (h.payloadLen : ℕ) ≤ maxPayload ∧
      build.minVersion ≤ h.version ∧ h.version ≤ build.version := by
  unfold decode at hd
  split_ifs at hd with hmagic
  rcases ht : MsgType.fromU16 (field b 4 2) with _ | t
  · simp only [ht] at hd
    split_ifs at hd
  simp only [ht] at hd
  split_ifs at hd with hversion hlarge
  cases hd
  rw [not_or, not_lt, not_lt] at hversion
  have hu16 : ∀ start, ((Fin.ofNat (2 ^ 16) (field b start 2) : U16) : ℕ) = field b start 2 :=
    fun start => Nat.mod_eq_of_lt (field_lt b start 2)
  have hu32 : ∀ start, ((Fin.ofNat (2 ^ 32) (field b start 4) : U32) : ℕ) = field b start 4 :=
    fun start => Nat.mod_eq_of_lt (field_lt b start 4)
  have hsplit : ∀ start width, start + width ≤ 16 →
      toLe width (field b start width) = (b.drop start).take width :=
    fun start width hle => toLe_field (hb ▸ hle)
  refine ⟨?_, ?_, ?_, ?_⟩
  · simp only [encode, hu16, hu32, MsgType.toU16_of_fromU16 ht]
    rw [hsplit 2 2 (by decide), hsplit 4 2 (by decide), hsplit 6 2 (by decide),
      hsplit 8 4 (by decide), hsplit 12 4 (by decide), ← not_ne_iff.1 hmagic]
    simp only [take_take_drop]
    exact List.take_of_length_le hb.le
  · simpa only [hu32] using not_lt.1 hlarge
  · rw [Fin.le_def]
    simpa only [hu16] using hversion.1
  · rw [Fin.le_def]
    simpa only [hu16] using hversion.2

end FrameHeader

namespace JrpConn

section Pieces

/-- A stream in pieces reads like the same stream in one. -/
theorem recvFrom_flatten (build : Build) (arrived : List (List UInt8)) :
    (recvFrom build arrived).map (fun r => (r.1, r.2.flatten)) = recv build arrived.flatten := by
  unfold recvFrom recv
  rcases hhdr : Chunks.readExact headerLen arrived with _ | ⟨hdr, behind⟩
  · rw [if_pos (Chunks.readExact_eq_none.1 hhdr)]
    rfl
  obtain ⟨hlen, rfl, hbehind⟩ := Chunks.readExact_eq_some hhdr
  have hge : ¬arrived.flatten.length < headerLen := fun hlt => by
    rw [Chunks.readExact_eq_none.2 hlt] at hhdr
    cases hhdr
  rw [if_neg hge]
  rcases hdecode : FrameHeader.decode build (arrived.flatten.take headerLen) with e | header
  · simp [hdecode, Except.map]
  simp only [hdecode, ← hbehind]
  by_cases hempty : (header.payloadLen : ℕ) = 0
  · simp [hempty, Except.map]
  rw [if_neg hempty]
  rcases hpayload : Chunks.readExact header.payloadLen behind with _ | ⟨payload, rest⟩
  · rw [if_pos (Chunks.readExact_eq_none.1 hpayload)]
    rfl
  · obtain ⟨-, rfl, hrest⟩ := Chunks.readExact_eq_some hpayload
    have hge : ¬behind.flatten.length < header.payloadLen := fun hlt => by
      rw [Chunks.readExact_eq_none.2 hlt] at hpayload
      cases hpayload
    rw [if_neg hge, ← hrest]
    rfl

/-- A frame that the stream in one piece holds is read off the stream in pieces. -/
theorem recvFrom_of_recv {build : Build} {arrived : List (List UInt8)} {frame : Frame}
    {rest : List UInt8} (h : recv build arrived.flatten = .ok (frame, rest)) :
    ∃ behind, recvFrom build arrived = .ok (frame, behind) ∧ behind.flatten = rest := by
  rw [← recvFrom_flatten] at h
  rcases hr : recvFrom build arrived with e | ⟨frame', behind⟩
  · rw [hr] at h
    cases h
  · rw [hr] at h
    cases h
    exact ⟨behind, rfl, rfl⟩

end Pieces

section Frames

variable {build : Build}

/-- What is read off a stream is what was there. -/
theorem recv_ok {arrived rest : List UInt8} {frame : Frame}
    (h : recv build arrived = .ok (frame, rest)) :
    frame.encode ++ rest = arrived ∧ (frame.header.payloadLen : ℕ) = frame.payload.length ∧
      frame.payload.length ≤ maxPayload := by
  unfold recv at h
  split_ifs at h with hshort
  rcases hd : FrameHeader.decode build (arrived.take headerLen) with e | header
  · simp only [hd] at h
    cases h
  simp only [hd] at h
  split_ifs at h with hcut
  cases h
  obtain ⟨hheader, hsmall, -⟩ :=
    FrameHeader.decode_ok (List.length_take_of_le (not_lt.1 hshort)) hd
  have hlen : ((arrived.drop headerLen).take header.payloadLen).length = header.payloadLen :=
    List.length_take_of_le (not_lt.1 hcut)
  refine ⟨?_, hlen.symm, hlen.le.trans hsmall⟩
  simp only [Frame.encode, hheader, List.append_assoc, List.take_append_drop]

/-- Frames that were read are the bytes that were consumed. -/
theorem recvMany_ok : ∀ {count : ℕ} {arrived rest : List (List UInt8)} {frames : List Frame},
    recvMany build count arrived = .ok (frames, rest) →
      frames.flatMap Frame.encode ++ rest.flatten = arrived.flatten ∧
        ∀ f ∈ frames, f.payload.length ≤ maxPayload
  | 0, arrived, rest, frames, h => by
    cases h
    exact ⟨rfl, by simp⟩
  | count + 1, arrived, rest, frames, h => by
    obtain ⟨⟨frame, behind⟩, hone, h⟩ := Except.eq_ok_of_bind h
    obtain ⟨⟨frames', rest'⟩, hmany, h⟩ := Except.eq_ok_of_bind h
    cases h
    have hrecv : recv build arrived.flatten = .ok (frame, behind.flatten) := by
      rw [← recvFrom_flatten, hone]
      rfl
    obtain ⟨hbytes, -, hsmall⟩ := recv_ok hrecv
    obtain ⟨hrest, hall⟩ := recvMany_ok hmany
    refine ⟨?_, fun f hf => ?_⟩
    · rw [List.flatMap_cons, List.append_assoc, hrest, hbytes]
    · rcases List.mem_cons.1 hf with rfl | hf
      · exact hsmall
      · exact hall f hf

/-- A message that `send` accepts is written as one frame. -/
theorem send_ok {c : JrpConn} {m : Message} {bytes : List UInt8}
    (h : c.send build m.wire m.msgType m.streamId m.value m.flags = .ok bytes) :
    ∃ frame, m.SentAs c frame ∧ frame.payload.length ≤ maxPayload ∧ bytes = frame.encode := by
  unfold send at h
  rcases hencode : m.wire.encode m.value with e | payload
  · simp only [hencode] at h
    cases h
  simp only [hencode] at h
  split_ifs at h with hlarge
  have hsmall : payload.length < 2 ^ 32 := lt_of_le_of_lt (not_lt.1 hlarge) (by decide)
  refine ⟨⟨⟨c.version, m.msgType, m.flags, m.streamId, Fin.ofNat _ payload.length⟩, payload⟩,
    ⟨rfl, Nat.mod_eq_of_lt hsmall, hencode⟩, not_lt.1 hlarge, ?_⟩
  exact (Except.ok.inj h).symm

/-- A short message is accepted, and its frame carries it. -/
theorem send_carries {α : Type} {wire : Wire α} {text : α → ℕ} (hf : wire.Faithful text)
    (c : JrpConn) (msgType : MsgType) (streamId : U32) {x : α} (flags : U16)
    (hx : text x + archiveOverhead ≤ maxPayload) :
    ∃ frame, c.send build wire msgType streamId x flags = .ok frame.encode ∧
      Carries wire c msgType streamId x frame := by
  obtain ⟨payload, hencode, hlen, hdecode⟩ := hf x (by omega)
  refine ⟨⟨⟨c.version, msgType, flags, streamId, Fin.ofNat _ payload.length⟩, payload⟩, ?_,
    ⟨rfl, rfl, rfl, hdecode⟩⟩
  simp only [send, hencode, if_neg (hlen.trans hx).not_gt]
  rfl

/-- The frames of a connection whose version the receiver speaks are received as they were sent. -/
theorem recvMany_sendAll {sender : Build} {c : JrpConn} (hlo : build.minVersion ≤ c.version)
    (hhi : c.version ≤ build.version) : ∀ {messages : List Message} {sent : List (List UInt8)}
    {arrived : List (List UInt8)} (behind : List UInt8), c.sendAll sender messages = .ok sent →
      arrived.flatten = sent.flatten ++ behind →
      ∃ frames rest, recvMany build messages.length arrived = .ok (frames, rest) ∧
        List.Forall₂ (fun m f => m.SentAs c f) messages frames ∧ rest.flatten = behind
  | [], sent, arrived, behind, hsent, harrived => by
    cases hsent
    exact ⟨[], arrived, rfl, .nil, harrived⟩
  | m :: messages, sent, arrived, behind, hsent, harrived => by
    obtain ⟨bytes, hone, hsent⟩ := Except.eq_ok_of_bind hsent
    obtain ⟨sent', hmany, hsent⟩ := Except.eq_ok_of_bind hsent
    cases hsent
    obtain ⟨frame, hframe, hsmall, rfl⟩ := send_ok hone
    have hversion : frame.header.version = c.version := by rw [hframe.header]
    have hrecv : recv build arrived.flatten = .ok (frame, sent'.flatten ++ behind) := by
      rw [harrived, List.flatten_cons, List.append_assoc, Frame.encode,
        recv_encode build hframe.payloadLen hsmall, hversion,
        if_neg (not_or.2 ⟨not_lt.2 hlo, not_lt.2 hhi⟩)]
    obtain ⟨arrived', hfrom, hflat⟩ := recvFrom_of_recv hrecv
    obtain ⟨frames, rest, hrest, hall, hbehind⟩ := recvMany_sendAll hlo hhi behind hmany hflat
    refine ⟨frame :: frames, rest, ?_, .cons hframe hall, hbehind⟩
    simp [recvMany, hfrom, hrest, bind, Except.bind, pure, Except.pure]

/-- However a stream is cut, the frames read off it are those that were sent, and frames read off a
stream are all that was consumed of it. -/
theorem framing_lossless (build : Build) :
    (∀ (sender : Build) (c : JrpConn) (messages : List Message) (sent arrived : List (List UInt8)),
      build.minVersion ≤ c.version → c.version ≤ build.version →
        c.sendAll sender messages = .ok sent → arrived.flatten = sent.flatten →
          ∃ frames rest, recvMany build messages.length arrived = .ok (frames, rest) ∧
            List.Forall₂ (fun m f => m.SentAs c f) messages frames ∧ rest.flatten = []) ∧
      ∀ (count : ℕ) (arrived rest : List (List UInt8)) (frames : List Frame),
        recvMany build count arrived = .ok (frames, rest) →
          frames.flatMap Frame.encode ++ rest.flatten = arrived.flatten ∧
            ∀ f ∈ frames, f.payload.length ≤ maxPayload := by
  refine ⟨fun sender c messages sent arrived hlo hhi hsent harrived => ?_,
    fun _ _ _ _ => recvMany_ok⟩
  exact recvMany_sendAll hlo hhi [] hsent (by rw [harrived, List.append_nil])

/-- Two messages, of which the second ends its stream. -/
def sampleMessages : List Message :=
  [⟨Hello, sampleCodec.hello, .hello, 1, ⟨"cli", 1, 1, 15⟩, Flags.none⟩,
    ⟨ErrorMsg, sampleCodec.errorMsg, .error, 1, ⟨Code.badRequest, "no"⟩, Flags.endStream⟩]

/-- They arrive byte by byte. -/
theorem sample_received : ∃ sent frames rest,
    (JrpConn.client currentBuild).sendAll currentBuild sampleMessages = .ok sent ∧
      recvMany currentBuild 2 (sent.flatten.map fun b => [b]) = .ok (frames, rest) ∧
      List.Forall₂ (fun m f => m.SentAs (JrpConn.client currentBuild) f) sampleMessages frames ∧
      rest.flatten = [] := by
  obtain ⟨sent, hsent⟩ : ∃ sent,
      (JrpConn.client currentBuild).sendAll currentBuild sampleMessages = .ok sent := ⟨_, rfl⟩
  obtain ⟨frames, rest, hrecv⟩ := (framing_lossless currentBuild).1 currentBuild
    (JrpConn.client currentBuild) sampleMessages sent (sent.flatten.map fun b => [b]) (by decide)
    (by decide) hsent (by rw [← List.flatMap_def, List.flatMap_singleton'])
  exact ⟨sent, frames, rest, hsent, hrecv⟩

end Frames

end JrpConn

end Jetrun
