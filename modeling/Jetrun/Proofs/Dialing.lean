import Jetrun.Dialing
import Jetrun.Proofs.Replies

/-!
# Whichever side moves first, a command ends the same way

A command and the session that serves it are each as deterministic as a program can be, and the
order in which they move does not matter: one run stands for all. In it the client sends, the
session answers, and the client reads the answer (`exec_exchange`), once for each request.
-/

namespace Jetrun

open Dialogue Runs JrpConn Jrp Jrp.Serving

section Frames

variable {α : Type} {wire : Wire α} {x : α}

theorem Wire.RoundTrips.delivers (h : wire.RoundTrips) (hfits : wire.Fits x) : wire.Delivers x := by
  obtain ⟨payload, hencode, hlen⟩ := hfits
  exact ⟨payload, hencode, hlen, h x payload hencode hlen⟩

theorem Wire.Faithful.delivers {text : α → ℕ} (hf : wire.Faithful text)
    (hx : text x + archiveOverhead ≤ maxPayload) : wire.Delivers x := by
  obtain ⟨payload, hencode, hlen, hdecode⟩ := hf x (by omega)
  exact ⟨payload, hencode, hlen.trans hx, hdecode⟩

/-- The bytes are one frame. -/
structure Arrives (bytes : List UInt8) (frame : Frame) : Prop where
  bytes_eq : bytes = frame.encode
  payloadLen : (frame.header.payloadLen : ℕ) = frame.payload.length
  small : frame.payload.length ≤ maxPayload

/-- A header that is refused is refused before its payload is there. -/
theorem recv_header {build : Build} {arrived : List UInt8} {e : FrameError}
    (h : JrpConn.recv build arrived = .error (.frame e)) :
    JrpConn.cut build arrived = some headerLen ∧
      JrpConn.recv build (arrived.take headerLen) = .error (.frame e) := by
  refine ⟨by simp only [JrpConn.cut, h], ?_⟩
  unfold JrpConn.recv at h ⊢
  split_ifs at h with hshort
  · cases h
  have hlen : (arrived.take headerLen).length = headerLen :=
    List.length_take_of_le (not_lt.1 hshort)
  rw [if_neg hlen.not_lt, List.take_take, min_self]
  cases hdecode : FrameHeader.decode build (arrived.take headerLen) with
  | error e' =>
    simp only [hdecode] at h ⊢
    exact h
  | ok header =>
    simp only [hdecode] at h
    split_ifs at h
    cases h

section Arrives

variable {bytes : List UInt8} {frame : Frame} {peer : Build}

theorem Arrives.recv (h : Arrives bytes frame) (hspeaks : peer.Speaks frame.header.version) :
    JrpConn.recv peer bytes = .ok (frame, []) := by
  rw [h.bytes_eq, recv_frame h.payloadLen h.small]
  exact if_neg (not_or.2 ⟨not_lt.2 hspeaks.1, not_lt.2 hspeaks.2⟩)

theorem Arrives.unsupported (h : Arrives bytes frame) (hnot : ¬peer.Speaks frame.header.version) :
    JrpConn.recv peer bytes = .error (.frame (.unsupportedVersion frame.header.version)) := by
  rw [Build.Speaks, not_and_or, not_le, not_le] at hnot
  rw [h.bytes_eq, recv_frame h.payloadLen h.small]
  exact if_pos hnot

theorem Arrives.cut (h : Arrives bytes frame) (hspeaks : peer.Speaks frame.header.version) :
    JrpConn.cut peer bytes = some bytes.length := by
  unfold JrpConn.cut
  rw [h.recv hspeaks]
  rfl

end Arrives

theorem send_delivers (hd : wire.Delivers x) (c : JrpConn) (build : Build) (msgType : MsgType)
    (streamId : U32) (flags : U16) :
    ∃ bytes frame, c.send build wire msgType streamId x flags = .ok bytes ∧
      Carries wire c msgType streamId x frame ∧ Arrives bytes frame := by
  obtain ⟨payload, hencode, hlen, hdecode⟩ := hd
  have hsmall : payload.length < 2 ^ 32 := lt_of_le_of_lt hlen (by decide)
  let frame : Frame :=
    ⟨⟨c.version, msgType, flags, streamId, Fin.ofNat _ payload.length⟩, payload⟩
  refine ⟨frame.encode, frame, ?_, ⟨rfl, rfl, rfl, hdecode⟩,
    ⟨rfl, Nat.mod_eq_of_lt hsmall, hlen⟩⟩
  simp only [JrpConn.send, hencode, if_neg hlen.not_gt]
  rfl

end Frames

namespace Jrp

open Traced

variable {l : Listener} {s t : Session} {frame : Frame}

section Turns

/-- The turn answers with `x`, in a message of this type on this stream, and goes on from `t`. -/
structure Replied {α : Type} (o : Outcome Session SessionError Event Flow) (t : Session)
    (streamId : U32) (wire : Wire α) (msgType : MsgType) (x : α) : Prop where
  next : o.result = .ok .next
  world : o.world = t
  reply : ∃ answer reply, replies o.trace = [answer] ∧ Arrives answer reply ∧
    Carries wire t.conn msgType streamId x reply

variable {α : Type} {wire : Wire α} {msgType : MsgType} {streamId : U32} {x : α}

theorem replied_emit {e : Event} (he : e.reply = none) {f : Unit → Handling Flow}
    (h : Replied (f () s) t streamId wire msgType x) :
    Replied ((emit e >>= f) s) t streamId wire msgType x := by
  obtain ⟨answer, reply, hreplies, hreply⟩ := h.reply
  rw [emit_bind]
  refine ⟨h.next, h.world, answer, reply, ?_, hreply⟩
  rwa [replies, List.filterMap_cons_none he]

theorem replied_send (hd : wire.Delivers x) (flags : U16) :
    Replied ((send l ⟨.ok frame, .ok ()⟩ wire msgType streamId x flags >>=
      fun _ => pure Flow.next) t) t streamId wire msgType x := by
  obtain ⟨answer, reply, hsend, hcarries, harrives⟩ :=
    send_delivers hd t.conn l.build msgType streamId flags
  have hsent := send_sent (a := ⟨.ok frame, .ok ()⟩) hsend rfl
  rw [bind_of_ok (by rw [hsent]), hsent]
  exact ⟨rfl, rfl, answer, reply, rfl, harrives, hcarries⟩

theorem replied_decode {β : Type} {wire' : Wire β} {y : β}
    (hread : wire'.decode frame.payload = .ok y) {f : β → Handling Flow}
    (h : Replied (f y s) t streamId wire msgType x) :
    Replied ((decode wire' frame >>= f) s) t streamId wire msgType x := by
  rw [decode_bind hread]
  exact replied_emit rfl h

theorem turn_open (hopen : s.authenticated = true ∨ frame.header.msgType.allowedPreauth = true) :
    turn l ⟨.ok frame, .ok ()⟩ s =
      (emit (.dispatched frame) >>= fun _ => serveFrame l ⟨.ok frame, .ok ()⟩ frame) s := by
  rw [turn_frame, if_neg]
  rcases hopen with h | h <;> simp [h]

theorem turn_ping (hpong : l.codec.pong.RoundTrips) (hu : l.codec.Usable)
    (htype : frame.header.msgType = .ping) {p : Ping}
    (hread : l.codec.ping.decode frame.payload = .ok p) :
    Replied (turn l ⟨.ok frame, .ok ()⟩ s) s frame.header.streamId l.codec.pong .pong
      ⟨p.nonce⟩ := by
  rw [turn_open (.inr (by rw [htype]; rfl))]
  refine replied_emit rfl ?_
  unfold serveFrame
  simp only [htype]
  exact replied_decode hread (replied_send (hpong.delivers (hu.pong _)) _)

variable (hu : l.codec.Usable)

include hu

end Turns

end Jrp

section Rounds

variable {cl : Cli.Client} {l : Listener} (session : Ulid) {α β : Type}

/-- The script sends these bytes, and goes on with the frame it is answered with. -/
def Asks (build : Build) (script : Cli.Dial α) (bytes : List UInt8) (k : Frame → Cli.Dial α) :
    Prop :=
  ∃ h, script = .send bytes (.recv h) ∧ ∀ answer reply, Arrives answer reply →
    build.Speaks reply.header.version → h answer = k reply

theorem Asks.bind {build : Build} {script : Cli.Dial α} {bytes : List UInt8}
    {k : Frame → Cli.Dial α} (h : Asks build script bytes k) (f : α → Cli.Dial β) :
    Asks build (script >>= f) bytes fun reply => k reply >>= f := by
  obtain ⟨read, rfl, hread⟩ := h
  refine ⟨fun answer => read answer >>= f, rfl, fun answer reply harrives hspeaks => ?_⟩
  exact congrArg (· >>= f) (hread answer reply harrives hspeaks)

theorem asks_request {wire : Wire β} {c : JrpConn} {msgType : MsgType} {streamId : U32} {x : β}
    {bytes : List UInt8} (hsend : c.send cl.build wire msgType streamId x Flags.none = .ok bytes)
    (f : Frame → Cli.Dial α) :
    Asks cl.build (Cli.send cl c wire msgType streamId x >>= fun _ => Cli.recv cl >>= f) bytes
      f := by
  unfold Cli.send Cli.recv
  rw [hsend]
  refine ⟨fun arrived => (Script.ofExcept ((JrpConn.recv cl.build arrived).mapError .conn) >>=
    fun r => pure r.1) >>= f, rfl, fun answer reply harrives hspeaks => ?_⟩
  simp only [harrives.recv hspeaks]
  rfl

/-- A request that is answered. -/
theorem exec_round {s t : Session} {script : Cli.Dial String} {bytes : List UInt8}
    {k : Frame → Cli.Dial String} (hasks : Asks cl.build script bytes k) {frame : Frame}
    (harrives : Arrives bytes frame) (hspeaks : l.build.Speaks frame.header.version)
    {wire : Wire α} {streamId : U32} {msgType : MsgType} {x : α}
    (hreplied : Replied (turn l ⟨.ok frame, .ok ()⟩ s) t streamId wire msgType x)
    (hclient : cl.build.Speaks t.conn.version) :
    ∃ reply, Carries wire t.conn msgType streamId x reply ∧
      exec (step (Cli.party cl.build) (Serving.party l session.text))
        ⟨⟨script, []⟩, ⟨.attending s, []⟩⟩ [.left, .right, .right, .left] =
          some ⟨⟨k reply, []⟩, ⟨.attending t, []⟩⟩ := by
  obtain ⟨h, rfl, hread⟩ := hasks
  obtain ⟨answer, reply, hreplies, hanswer, hcarries⟩ := hreplied.reply
  have hversion : cl.build.Speaks reply.header.version := hcarries.version ▸ hclient
  have hattended : attended l s bytes = .writing answer (.attending t) := by
    have hreceived : received l.build bytes = .ok frame := by
      unfold received
      rw [harrives.recv hspeaks]
    unfold attended
    simp only [hreceived, hreplied.next, hreplied.world, after, hreplies, List.foldr_cons,
      List.foldr_nil]
  refine ⟨reply, hcarries, ?_⟩
  rw [← hread answer reply hanswer hversion]
  exact exec_exchange (p := Cli.party cl.build) (q := Serving.party l session.text) rfl rfl rfl
    (by rw [hattended]; rfl) (harrives.cut hspeaks) (hanswer.cut hversion)

/-- The client is done, and so is the session then. -/
theorem exec_bye {s : Session} (printed : Except Cli.CliError String) :
    exec (step (Cli.party cl.build) (Serving.party l session.text))
      ⟨⟨.ended printed, []⟩, ⟨.attending s, []⟩⟩ [.right] = some (hungUp printed (.ok ())) := by
  have hend : attended l s [] = .ended (.ok ()) := rfl
  rw [hungUp, ← hend]
  exact exec_hang (p := Cli.party cl.build) (q := Serving.party l session.text) rfl rfl rfl

end Rounds

section Handshake

variable {cl : Cli.Client} {l : Listener} (session : Ulid)

/-- The connection of a client whose version the server speaks, once they have shaken hands. -/
def Cli.Client.connected (cl : Cli.Client) (l : Listener) : JrpConn :=
  { (JrpConn.client cl.build).nextStream.1 with
    version := cl.build.version, peerCaps := l.build.caps &&& cl.build.caps }

/-- The session that serves it. -/
def Jrp.Listener.connected (l : Listener) (cl : Cli.Client) : Session :=
  ⟨{ JrpConn.server l.build with version := cl.build.version, peerCaps := cl.build.caps }, false⟩

/-- What the server answers. -/
def Jrp.Listener.ack (l : Listener) (cl : Cli.Client) (session : Ulid) : HelloAck :=
  ⟨l.agent, cl.build.version, l.build.caps &&& cl.build.caps, session.text⟩

theorem clientHandshake_sends {sent : List UInt8}
    (hhello : (JrpConn.client cl.build).clientHello cl.build cl.codec.toCodec cl.agent =
      ((JrpConn.client cl.build).nextStream.1, .ok sent))
    (f : JrpConn × HelloAck → Cli.Dial String) :
    Cli.clientHandshake cl (JrpConn.client cl.build) >>= f =
      .send sent (.recv fun arrived => Script.ofExcept
        (((JrpConn.client cl.build).nextStream.1.clientFinish cl.build cl.codec.toCodec
          arrived).mapError Cli.CliError.conn) >>= f) := by
  unfold Cli.clientHandshake
  rw [hhello]
  rfl

variable (hs : cl.codec.Sound) (hcodec : l.codec = cl.codec.toSessionCodec)
  (hclient : cl.agent.utf8ByteSize ≤ Limits.maxAgentLen)

include hs hclient

theorem hello_arrives : ∃ sent frame,
    (JrpConn.client cl.build).clientHello cl.build cl.codec.toCodec cl.agent =
      ((JrpConn.client cl.build).nextStream.1, .ok sent) ∧ Arrives sent frame ∧
    Carries cl.codec.hello (JrpConn.client cl.build) .hello 1
      ⟨cl.agent, cl.build.minVersion, cl.build.version, cl.build.caps⟩ frame := by
  have hsize : Hello.text ⟨cl.agent, cl.build.minVersion, cl.build.version, cl.build.caps⟩
      + archiveOverhead ≤ maxPayload := by
    simp only [Limits.maxAgentLen] at hclient
    simp only [Hello.text, archiveOverhead, maxPayload]
    omega
  obtain ⟨sent, frame, hsend, hcarries, harrives⟩ :=
    send_delivers (hs.handshake.hello.delivers hsize) (JrpConn.client cl.build).nextStream.1
      cl.build .hello 1 Flags.none
  refine ⟨sent, frame, ?_, harrives, ⟨hcarries.version, hcarries.msgType, hcarries.streamId,
    hcarries.payload⟩⟩
  rw [← hsend]
  rfl

variable (hserver : l.agent.utf8ByteSize ≤ Limits.maxAgentLen)
  (hspeaks : l.build.Speaks cl.build.version)

include hcodec hserver hspeaks

theorem hello_answered {sent : List UInt8} {frame : Frame} (hsent : Arrives sent frame)
    (hcarries : Carries cl.codec.hello (JrpConn.client cl.build) .hello 1
      ⟨cl.agent, cl.build.minVersion, cl.build.version, cl.build.caps⟩ frame) :
    ∃ answer reply, Arrives answer reply ∧
      Carries cl.codec.helloAck (l.connected cl).conn .helloAck 1 (l.ack cl session) reply ∧
      (JrpConn.server l.build).serverHandshake l.build l.codec.toCodec l.agent session.text sent =
        (answer, .ok ((l.connected cl).conn,
          ⟨cl.agent, cl.build.minVersion, cl.build.version, cl.build.caps⟩)) := by
  have hsize : HelloAck.text (l.ack cl session) + archiveOverhead ≤ maxPayload := by
    simp only [HelloAck.text, Listener.ack, session.size, Limits.maxAgentLen, archiveOverhead,
      maxPayload] at hserver ⊢
    omega
  obtain ⟨answer, reply, hsend, hreply, harrives⟩ :=
    send_delivers (hs.handshake.helloAck.delivers hsize) (l.connected cl).conn l.build .helloAck 1
      Flags.none
  refine ⟨answer, reply, harrives, hreply, ?_⟩
  have hmin : min l.build.version cl.build.version = cl.build.version := min_eq_right hspeaks.2
  have hlow : ¬(cl.build.version < l.build.minVersion ∨
      cl.build.version < cl.build.minVersion) :=
    not_or.2 ⟨not_lt.2 hspeaks.1, not_lt.2 cl.build.min_le⟩
  have hrecv : JrpConn.recv l.build sent = .ok (frame, []) :=
    hsent.recv (hcarries.version ▸ hspeaks)
  simp only [Listener.connected, Listener.ack] at hsend
  simp only [serverHandshake, hrecv, hcarries.msgType, ne_eq, not_true_eq_false, if_false, decodeAs,
    hcodec, hcarries.payload, Except.mapError, validate_hello hclient, hmin, if_neg hlow,
    hcarries.streamId, hsend, Listener.connected]

/-- A server that speaks the client's version lets it through, whatever it goes on with. -/
theorem exec_greet (f : JrpConn × HelloAck → Cli.Dial String) :
    exec (step (Cli.party cl.build) (Serving.party l session.text))
      (dialed (Cli.clientHandshake cl (JrpConn.client cl.build) >>= f))
      [.left, .right, .right, .left] =
        some ⟨⟨f (cl.connected l, l.ack cl session), []⟩, ⟨.attending (l.connected cl), []⟩⟩ := by
  obtain ⟨sent, frame, hhello, hsent, hcarries⟩ := hello_arrives hs hclient
  obtain ⟨answer, reply, hanswer, hreply, hserved⟩ :=
    hello_answered session hs hcodec hclient hserver hspeaks hsent hcarries
  have hfull : answer ≠ [] := by
    rintro rfl
    have hrecv : JrpConn.recv cl.build [] = .ok (reply, []) :=
      hanswer.recv (hreply.version ▸ ⟨cl.build.min_le, le_rfl⟩)
    cases hrecv
  have hgreeted : greeted l session.text sent = .writing answer (.attending (l.connected cl)) := by
    have hgreet : greet l session.text sent (Session.start l) =
        ⟨.ok (), l.connected cl, [.sent answer]⟩ := by
      unfold greet
      simp only [Traced.get_bind, Session.start, hserved, if_neg hfull]
      rfl
    unfold greeted
    rw [hgreet]
    rfl
  have hrecv : JrpConn.recv cl.build answer = .ok (reply, []) :=
    hanswer.recv (hreply.version ▸ ⟨cl.build.min_le, le_rfl⟩)
  have hfinish : (JrpConn.client cl.build).nextStream.1.clientFinish cl.build cl.codec.toCodec
      answer = .ok (cl.connected l, l.ack cl session) := by
    have hrange : ¬((l.ack cl session).version < cl.build.minVersion ∨
        cl.build.version < (l.ack cl session).version) :=
      not_or.2 ⟨not_lt.2 cl.build.min_le, lt_irrefl _⟩
    simp only [clientFinish, hrecv, hreply.msgType, decodeAs, hreply.payload, Except.mapError, bind,
      Except.bind, if_neg hrange, pure, Except.pure]
    rfl
  have hexec := exec_exchange (p := Cli.party cl.build) (q := Serving.party l session.text)
    (s := Cli.clientHandshake cl (JrpConn.client cl.build) >>= f) (t := .greeting)
    (by rw [clientHandshake_sends hhello]; rfl) rfl rfl (by rw [hgreeted]; rfl)
    (hsent.cut (hcarries.version ▸ hspeaks))
    (hanswer.cut (hreply.version ▸ ⟨cl.build.min_le, le_rfl⟩))
  rw [hfinish] at hexec
  exact hexec

end Handshake

section Requests

variable {cl : Cli.Client} {l : Listener} (session : Ulid) {c : JrpConn} {s : Session}
  (hs : cl.codec.Sound) (hcodec : l.codec = cl.codec.toSessionCodec)
  (hc : l.build.Speaks c.version) (hsession : cl.build.Speaks s.conn.version)

include hs hcodec hc hsession

end Requests

section Commands

variable {cl : Cli.Client} {l : Listener} {session : Ulid}

section Spoken

variable (hs : cl.codec.Sound) (hcodec : l.codec = cl.codec.toSessionCodec)
  (hclient : cl.agent.utf8ByteSize ≤ Limits.maxAgentLen)
  (hserver : l.agent.utf8ByteSize ≤ Limits.maxAgentLen)
  (hspeaks : l.build.Speaks cl.build.version)

include hs hcodec hclient hserver hspeaks

/-- The nonce comes back. -/
theorem ping_spoken (nonce : Fin (2 ^ 64)) :
    Settles (Cli.party cl.build) (Serving.party l session.text) (dialed (Cli.ping cl nonce))
      (hungUp (.ok (Cli.pingLine (l.ack cl session))) (.ok ())) 9 := by
  -- What is left of the command after the handshake, and after the ping.
  let echoed (ack : HelloAck) (n : Fin (2 ^ 64)) : Cli.Dial String :=
    if n ≠ nonce then Script.fail (.bail "server echoed the wrong nonce")
    else pure (Cli.pingLine ack)
  have hgreet := exec_greet session hs hcodec hclient hserver hspeaks
    fun r => Cli.connPing cl r.1 nonce >>= echoed r.2
  obtain ⟨bytes, frame, hsend, hcarries, harrives⟩ :=
    send_delivers (hs.ping ⟨nonce⟩) (cl.connected l).nextStream.1 cl.build .ping
      (cl.connected l).nextStream.2 Flags.none
  have hread : l.codec.ping.decode frame.payload = .ok ⟨nonce⟩ := by
    rw [hcodec]
    exact hcarries.payload
  have hasks : Asks cl.build (Cli.connPing cl (cl.connected l) nonce >>= echoed (l.ack cl session))
      bytes _ := (asks_request hsend _).bind _
  obtain ⟨reply, hreply, hround⟩ := exec_round session hasks harrives
    (hcarries.version ▸ hspeaks)
    (turn_ping (s := l.connected cl) (hcodec ▸ hs.pong) (hcodec ▸ hs.usable) hcarries.msgType hread)
    ⟨cl.build.min_le, le_rfl⟩
  have hdecode : JrpConn.decodeAs cl.codec.pong reply = .ok ⟨nonce⟩ := by
    have hpong : cl.codec.pong.decode reply.payload = .ok ⟨nonce⟩ := by
      rw [← hreply.payload, hcodec]
    unfold JrpConn.decodeAs
    rw [hpong]
    rfl
  simp only [hreply.msgType, hdecode, ne_eq, not_true_eq_false, if_false, Except.mapError,
    Script.ofExcept_bind, Script.ok_bind, echoed] at hround
  exact settles_of_exec (exec_trans hgreet (exec_trans hround (exec_bye session _))) rfl rfl

end Spoken

/-- The server refuses the first header it gets, with the payload unread, and tells nothing. -/
theorem unspoken (hs : cl.codec.Sound) (hclient : cl.agent.utf8ByteSize ≤ Limits.maxAgentLen)
    (hnot : ¬l.build.Speaks cl.build.version) (f : JrpConn × HelloAck → Cli.Dial String) :
    ∃ unread, Settles (Cli.party cl.build) (Serving.party l session.text)
      (dialed (Cli.clientHandshake cl (JrpConn.client cl.build) >>= f))
      ⟨⟨.ended (.error (.conn .unexpectedEof)), []⟩,
        ⟨.ended (.error (.conn (.frame (.unsupportedVersion cl.build.version)))), unread⟩⟩ 3 := by
  obtain ⟨sent, frame, hhello, hsent, hcarries⟩ := hello_arrives hs hclient
  have hversion : frame.header.version = cl.build.version := hcarries.version
  have hforeign : ¬l.build.Speaks frame.header.version := hversion ▸ hnot
  obtain ⟨hcut, hrecv⟩ := recv_header (hsent.unsupported hforeign)
  have hgreeted : greeted l session.text (sent.take headerLen) =
      .ended (.error (.conn (.frame (.unsupportedVersion cl.build.version)))) := by
    rw [← hversion]
    unfold greeted greet serverHandshake
    rw [hrecv]
    rfl
  have hexec := exec_snub (p := Cli.party cl.build) (q := Serving.party l session.text)
    (s := Cli.clientHandshake cl (JrpConn.client cl.build) >>= f) (t := .greeting)
    (by rw [clientHandshake_sends hhello]; rfl) rfl rfl (by rw [hgreeted]; rfl) hcut rfl
  rw [hgreeted] at hexec
  exact ⟨sent.drop headerLen, settles_of_exec hexec rfl rfl⟩

end Commands

section Sample

/-- A wire for the messages that one text tells apart. -/
def exactWire {α : Type} [DecidableEq α] (text : α → String) (ofText : String → α) : Wire α where
  encode x :=
    if ofText (text x) = x then (textWire text ofText).encode x else .error (.encode "fields")
  decode := (textWire text ofText).decode

theorem exactWire_roundTrips {α : Type} [DecidableEq α] (text : α → String)
    (ofText : String → α) : (exactWire text ofText).RoundTrips := by
  intro x bytes hencode hlen
  unfold exactWire at hencode ⊢
  simp only [textWire] at hencode ⊢
  split_ifs at hencode with hx
  · cases hencode
    have hsmall : (text x).utf8ByteSize ≤ maxPayload := by
      rw [length_plainText] at hlen
      omega
    have hread := readText_plainText hsmall []
    rw [List.append_nil] at hread
    rw [hread]
    exact congrArg Except.ok hx

theorem numberWire_decode {α : Type} {number : α → Fin (2 ^ 64)} {ofNumber : Fin (2 ^ 64) → α}
    (h : ∀ x, ofNumber (number x) = x) (x : α) :
    (numberWire number ofNumber).decode (LittleEndian.toLe 8 (number x)) = .ok x := by
  have hlt : (number x : ℕ) < 256 ^ 8 := (number x).isLt
  have hlen : (LittleEndian.toLe 8 (number x)).length = 8 := LittleEndian.length_toLe ..
  have hnumber : LittleEndian.ofLe ((LittleEndian.toLe 8 (number x)).take 8) % 2 ^ 64
      = number x := by
    rw [List.take_of_length_le hlen.le, LittleEndian.ofLe_toLe hlt]
    exact Nat.mod_eq_of_lt (number x).isLt
  simp only [numberWire, hnumber, Fin.eta, h]

/-- What is one text, and what is one number, is read back. -/
def sampleCliCodec : CliCodec where
  toSessionCodec :=
    { sampleSessionCodec with
      auth := exactWire Auth.token Auth.mk
      authOk := exactWire AuthOk.principalKind fun kind => ⟨"", kind, "", []⟩
      submitRun := exactWire SubmitRun.project fun project =>
        ⟨project, "ci", [], none, none, some sampleSession.text⟩ }
  runAccepted := exactWire RunAccepted.runId fun run => ⟨run, ⟨1, by decide⟩, "b3:0", false⟩

theorem sampleCliCodec_usable : sampleCliCodec.Usable where
  errorMsg := sampleCodec_faithful.errorMsg
  pong := sampleSessionCodec_usable.pong
  authOk := ⟨plainText "service_account", rfl, by decide⟩
  auth bytes a h := by
    obtain ⟨s, hs, rfl⟩ := textWire_lt Auth.token Auth.mk h
    exact hs
  submitRun bytes r h := by
    obtain ⟨s, hs, rfl⟩ := textWire_lt SubmitRun.project
      (fun project => ⟨project, "ci", [], none, none, some sampleSession.text⟩) h
    have hci : "ci".utf8ByteSize = 2 := by decide
    intro n hn
    simp only [SubmitRun.lengths, List.filterMap_cons, Option.map_none, Option.map_some,
      List.filterMap_nil, List.cons_append, List.nil_append, List.mem_cons, List.length_nil,
      List.not_mem_nil, or_false, sampleSession.size] at hn
    rcases hn with rfl | rfl | rfl | rfl
    · exact hs
    all_goals omega

theorem sampleCliCodec_sound : sampleCliCodec.Sound where
  handshake := sampleCodec_faithful
  usable := sampleCliCodec_usable
  ping p := ⟨_, rfl, by rw [LittleEndian.length_toLe]; decide, numberWire_decode (fun _ => rfl) p⟩
  pong p bytes hencode _ := by
    cases hencode
    exact numberWire_decode (fun _ => rfl) p
  auth := exactWire_roundTrips Auth.token Auth.mk
  authOk := exactWire_roundTrips AuthOk.principalKind fun kind => ⟨"", kind, "", []⟩
  submitRun := exactWire_roundTrips SubmitRun.project fun project =>
    ⟨project, "ci", [], none, none, some sampleSession.text⟩

def sampleClient : Cli.Client := ⟨currentBuild, sampleCliCodec, "jet-cli/0.1.0"⟩

def sampleDialed : Listener :=
  ⟨currentBuild, sampleCliCodec.toSessionCodec, "jetrun-server/0.1.0", authenticateToken⟩

end Sample

section Settling

variable {cl : Cli.Client} {l : Listener} {session : Ulid}

/-- A ping gets through whenever the server speaks the newest version of the client, and then the
nonce comes back; a client that is newer than that is not told anything. In both cases all schedules
lead there. -/
theorem ping_settles (hs : cl.codec.Sound) (hcodec : l.codec = cl.codec.toSessionCodec)
    (hclient : cl.agent.utf8ByteSize ≤ Limits.maxAgentLen)
    (hserver : l.agent.utf8ByteSize ≤ Limits.maxAgentLen) (nonce : Fin (2 ^ 64)) :
    (l.build.Speaks cl.build.version →
      Settles (Cli.party cl.build) (Serving.party l session.text) (dialed (Cli.ping cl nonce))
        (hungUp (.ok (Cli.pingLine (l.ack cl session))) (.ok ())) 9) ∧
      (¬l.build.Speaks cl.build.version → ∃ unread,
        Settles (Cli.party cl.build) (Serving.party l session.text) (dialed (Cli.ping cl nonce))
          ⟨⟨.ended (.error (.conn .unexpectedEof)), []⟩,
            ⟨.ended (.error (.conn (.frame (.unsupportedVersion cl.build.version)))), unread⟩⟩ 3) :=
  ⟨fun hspeaks => ping_spoken hs hcodec hclient hserver hspeaks nonce,
    fun hnot => unspoken hs hclient hnot _⟩

/-- The listener as it is answers a client of its own build. -/
theorem ping_answered :
    Settles (Cli.party currentBuild) (Serving.party sampleDialed sampleSession.text)
      (dialed (Cli.ping sampleClient 4242))
      (hungUp (.ok "ok  jrp v1  session 01H8XGJWBWBAQ4Z7RQX0K3M5TN  server jetrun-server/0.1.0")
        (.ok ())) 9 := by
  have hline : Cli.pingLine (sampleDialed.ack sampleClient sampleSession) =
      "ok  jrp v1  session 01H8XGJWBWBAQ4Z7RQX0K3M5TN  server jetrun-server/0.1.0" := by
    decide +kernel
  rw [← hline]
  have hs : sampleClient.codec.Sound := sampleCliCodec_sound
  have hcodec : sampleDialed.codec = sampleClient.codec.toSessionCodec := rfl
  exact (ping_settles hs hcodec (by decide) (by decide) 4242).1 ⟨by decide, by decide⟩

end Settling

end Jetrun
