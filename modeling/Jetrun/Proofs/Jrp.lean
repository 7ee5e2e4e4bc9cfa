import Jetrun.Jrp
import Jetrun.Lib.Runs
import Jetrun.Proofs.Negotiation

/-!
# The gate of the internal listener

In any session, something is made of a frame that needs authentication only after a token was
accepted (`gate`), and the frames before that are all answered alike. Which refused token a peer
presents makes no difference to any answer (`not_an_oracle`).
-/

namespace Jetrun

namespace Jrp

open JrpConn Traced Runs

variable {l : Listener}

section Steps

variable {a : Arrival} {s : Session} {h : List Event}

theorem leads_send {α : Type} {wire : Wire α} {msgType : MsgType} {streamId : U32} {value : α}
    {flags : U16} {Q : Except SessionError Unit → Session → List Event → Prop}
    (hsent : ∀ bytes, Q (.ok ()) s (h ++ [.sent bytes])) (herror : ∀ e, Q (.error e) s h) :
    Leads (fun _ => True) (send l a wire msgType streamId value flags) Q s h := by
  refine leads_get_bind ?_
  refine leads_ofExcept_bind (fun bytes _ => ?_) fun e _ => herror e
  refine leads_ofExcept_bind (fun _ _ => ?_) fun e _ => herror e
  exact leads_emit fun _ => hsent bytes

theorem leads_decode {α : Type} {wire : Wire α} {frame : Frame}
    {Q : Except SessionError α → Session → List Event → Prop}
    (hok : ∀ x, wire.decode frame.payload = .ok x → Q (.ok x) s (h ++ [.decoded frame]))
    (herror : ∀ e, Q (.error e) s (h ++ [.decoded frame])) :
    Leads (fun _ => True) (decode wire frame) Q s h := by
  refine leads_emit_bind fun _ => leads_ofExcept ?_
  rcases hdecode : wire.decode frame.payload with e | x
  · exact herror _
  · exact hok x hdecode

end Steps

section Gate

/-- A session that counts as authenticated has earned it, and nothing was made of a frame that
needs authentication before it was earned. -/
structure Gated (l : Listener) (s : Session) (h : List Event) : Prop where
  earned : s.authenticated = true → Earned l h
  throughout : Throughout (fun before e => e.Privileged → Earned l before) h

variable {s : Session} {h : List Event} {frame : Frame}

theorem Earned.append (he : Earned l h) (h' : List Event) : Earned l (h ++ h') := by
  obtain ⟨frame, hmem, hadmits⟩ := he
  exact ⟨frame, List.mem_append_left _ hmem, hadmits⟩

theorem Gated.emit (hg : Gated l s h) {e : Event} (he : e.Privileged → Earned l h) :
    Gated l s (h ++ [e]) :=
  ⟨fun hs => (hg.earned hs).append [e], throughout_concat.2 ⟨hg.throughout, he⟩⟩

theorem Gated.sent (hg : Gated l s h) (bytes : List UInt8) : Gated l s (h ++ [.sent bytes]) :=
  hg.emit False.elim

theorem Gated.admitted (hg : Gated l s h) (hmem : .dispatched frame ∈ h) (ha : Admits l frame) :
    Gated l { s with authenticated := true } h :=
  ⟨fun _ => ⟨frame, hmem, ha⟩, hg.throughout⟩

theorem presentable_of_validate {auth : Auth} (hv : auth.validate = .ok ()) :
    Presentable auth.token := by
  unfold Auth.validate nonemptyBounded bounded at hv
  split_ifs at hv with hempty hlong
  exact ⟨Nat.one_le_iff_ne_zero.2 hempty, not_lt.1 hlong⟩

theorem validate_of_presentable {auth : Auth} (hp : Presentable auth.token) :
    auth.validate = .ok () := by
  unfold Auth.validate nonemptyBounded bounded
  rw [if_neg (Nat.one_le_iff_ne_zero.1 hp.1), if_neg (not_lt.2 hp.2)]

/-- An arm of the loop that ends with an answer. -/
theorem leads_answer {α : Type} {a : Arrival} {wire : Wire α} {msgType : MsgType} {streamId : U32}
    {value : α} {flags : U16} (hg : Gated l s h) :
    Leads (fun _ => True) (send l a wire msgType streamId value flags >>= fun _ => pure Flow.next)
      (fun _ s' h' => Gated l s' h') s h := by
  refine leads_bind (leads_send (fun bytes => ?_) fun _ => hg)
  exact leads_pure (hg.sent bytes)

/-- The arms keep the gate: only the one for `Auth` changes the session. -/
theorem serveFrame_keeps {a : Arrival} (hg : Gated l s h) (hmem : .dispatched frame ∈ h)
    (hmay : frame.header.msgType.allowedPreauth = false → Earned l h) :
    Leads (fun _ => True) (serveFrame l a frame) (fun _ s' h' => Gated l s' h') s h := by
  have hread : Gated l s (h ++ [.decoded frame]) := hg.emit hmay
  unfold serveFrame
  rcases htype : frame.header.msgType
  case goodbye => exact leads_pure hg
  case ping =>
    refine leads_bind (leads_decode (fun p _ => ?_) fun _ => hread)
    exact leads_answer hread
  case submitRun =>
    refine leads_bind (leads_decode (fun sub _ => ?_) fun _ => hread)
    dsimp only
    split <;> exact leads_answer hread
  case auth =>
    refine leads_bind (leads_decode (fun auth hauth => ?_) fun _ => hread)
    dsimp only
    split
    · exact leads_answer hread
    rename_i hvalid
    split
    · rename_i hok
      refine leads_act_bind (leads_answer (Gated.admitted hread (List.mem_append_left _ hmem) ?_))
      exact ⟨htype, auth, hauth, presentable_of_validate hvalid, hok⟩
    · exact leads_answer hread
  all_goals exact leads_answer hg

theorem turn_keeps {a : Arrival} (hg : Gated l s h) :
    Leads (fun _ => True) (turn l a) (fun _ s' h' => Gated l s' h') s h := by
  unfold turn
  split
  · exact leads_pure hg
  · exact leads_pure hg
  · exact leads_ofExcept hg
  rename_i frame _
  refine leads_get_bind ?_
  split_ifs with hclosed
  · exact leads_answer hg
  rw [Bool.and_eq_true, Bool.not_eq_true', Bool.not_eq_true', not_and] at hclosed
  have hmay : frame.header.msgType.allowedPreauth = false → Earned l h := fun hpriv =>
    hg.earned (by
      by_contra hs
      exact hclosed (Bool.not_eq_true _ ▸ hs) hpriv)
  refine leads_emit_bind fun _ => serveFrame_keeps (hg.emit hmay) (by simp) fun hpriv => ?_
  exact (hmay hpriv).append _

theorem loop_keeps : ∀ (as : List Arrival) {s : Session} {h : List Event}, Gated l s h →
    Leads (fun _ => True) (loop l as) (fun _ s' h' => Gated l s' h') s h
  | [], _, _, hg => leads_pure hg
  | a :: as, s, h, hg => by
    refine leads_bind ((turn_keeps hg).mono fun r s' h' hg' => ?_)
    rcases r with e | flow
    · exact hg'
    · cases flow
      · exact loop_keeps as hg'
      · exact leads_pure hg'

theorem greet_keeps {session : String} {hello : List UInt8} (hg : Gated l s h) :
    Leads (fun _ => True) (greet l session hello) (fun _ s' h' => Gated l s' h') s h := by
  unfold greet
  refine leads_get_bind ?_
  dsimp only
  have hfinish : ∀ {h : List Event} {served : Except SessionError (JrpConn × Hello)}, Gated l s h →
      Leads (fun _ => True) (Traced.ofExcept served >>= fun r =>
          act (modify fun s => { s with conn := r.1 }))
        (fun _ s' h' => Gated l s' h') s h := fun hg =>
    leads_ofExcept_bind (fun served _ => leads_act ⟨hg.earned, hg.throughout⟩) fun _ _ => hg
  split_ifs
  · exact hfinish hg
  · exact leads_emit_bind fun _ => hfinish (hg.sent _)

variable {session : String} {hello : List UInt8}

/-- In any session, whatever arrives. -/
theorem handle_gated (arrivals : List Arrival) :
    Gated l (handle l session hello arrivals).world (handle l session hello arrivals).trace := by
  have hstart : Gated l (Session.start l) [] := ⟨fun h => (by cases h), throughout_nil _⟩
  refine Leads.outcome (Q := fun _ s' h' => Gated l s' h')
    (leads_bind ((greet_keeps hstart).mono fun r s' h' hg => ?_))
  rcases r with e | u
  · exact hg
  · exact loop_keeps arrivals hg

end Gate

section Answers

variable {s : Session} {session : String} {hello : List UInt8}

/-- What arrives later is handled from where the session stands. -/
theorem loop_append (bs : List Arrival) : ∀ {as : List Arrival} {s : Session},
    (loop l as s).result = .ok .next →
      loop l (as ++ bs) s = ⟨(loop l bs (loop l as s).world).result,
        (loop l bs (loop l as s).world).world,
        (loop l as s).trace ++ (loop l bs (loop l as s).world).trace⟩
  | [], s, _ => rfl
  | a :: as, s, hnext => by
    rcases hr : (turn l a s).result with e | flow
    · rw [loop, bind_of_error hr] at hnext
      cases hnext
    rw [List.cons_append, loop, loop, bind_of_ok hr, bind_of_ok hr]
    rw [loop, bind_of_ok hr] at hnext
    cases flow
    · simp only [loop_append bs hnext, List.append_assoc]
    · cases hnext

theorem handle_append {as bs : List Arrival}
    (hnext : (handle l session hello as).result = .ok .next) :
    handle l session hello (as ++ bs) =
      ⟨(loop l bs (handle l session hello as).world).result,
        (loop l bs (handle l session hello as).world).world,
        (handle l session hello as).trace
          ++ (loop l bs (handle l session hello as).world).trace⟩ := by
  unfold handle at hnext ⊢
  rcases hr : (greet l session hello (Session.start l)).result with e | u
  · rw [bind_of_error hr] at hnext
    cases hnext
  rw [bind_of_ok hr] at hnext
  simp only [bind_of_ok hr, loop_append bs hnext, List.append_assoc]

theorem send_sent {α : Type} {a : Arrival} {wire : Wire α} {msgType : MsgType} {streamId : U32}
    {value : α} {flags : U16} {bytes : List UInt8}
    (hsend : s.conn.send l.build wire msgType streamId value flags = .ok bytes)
    (hwritten : a.written = .ok ()) :
    send l a wire msgType streamId value flags s = ⟨.ok (), s, [.sent bytes]⟩ := by
  unfold send
  rw [get_bind, hsend, hwritten]
  rfl

theorem turn_frame (frame : Frame) (written : Except ErrorKind Unit) (s : Session) :
    turn l ⟨.ok frame, written⟩ s =
      if !s.authenticated && !frame.header.msgType.allowedPreauth then
        (sendError l ⟨.ok frame, written⟩ frame.header.streamId Code.authRequired
          "authenticate before issuing this request" >>= fun _ => pure .next) s
      else (emit (.dispatched frame) >>= fun _ => serveFrame l ⟨.ok frame, written⟩ frame) s := by
  unfold turn
  dsimp only
  rw [get_bind]
  split_ifs <;> rfl

/-- A frame that needs authentication is refused on its own stream, and nothing else happens. -/
theorem turn_refuses (hf : l.codec.errorMsg.Faithful ErrorMsg.text) {frame : Frame}
    (hs : s.authenticated = false) (hpriv : frame.header.msgType.allowedPreauth = false) :
    ∃ reply, Carries l.codec.errorMsg s.conn .error frame.header.streamId
        ⟨Code.authRequired, "authenticate before issuing this request"⟩ reply ∧
      turn l ⟨.ok frame, .ok ()⟩ s = ⟨.ok .next, s, [.sent reply.encode]⟩ := by
  obtain ⟨reply, hsend, hcarries⟩ : ∃ reply, s.conn.send l.build l.codec.errorMsg .error
        frame.header.streamId ⟨Code.authRequired, "authenticate before issuing this request"⟩
        Flags.endStream = .ok reply.encode ∧
      Carries l.codec.errorMsg s.conn .error frame.header.streamId
        ⟨Code.authRequired, "authenticate before issuing this request"⟩ reply :=
    send_carries hf s.conn .error frame.header.streamId Flags.endStream (by decide)
  refine ⟨reply, hcarries, ?_⟩
  have hclosed : (!s.authenticated && !frame.header.msgType.allowedPreauth) = true := by
    simp [hs, hpriv]
  rw [turn_frame, if_pos hclosed, sendError, bind_of_ok (by rw [send_sent hsend rfl]),
    send_sent hsend rfl]
  rfl

/-- In any session, something is made of a frame that needs authentication only after a token of
acceptable length was presented and accepted; until then such a frame is answered on its stream with
a demand to authenticate, and the session stays as it is. -/
theorem gate (hf : l.codec.errorMsg.Faithful ErrorMsg.text) (session : String) (hello : List UInt8)
    (arrivals : List Arrival) :
    Throughout (fun before e => e.Privileged → Earned l before)
        (handle l session hello arrivals).trace ∧
      ∀ frame : Frame, (handle l session hello arrivals).result = .ok .next →
        frame.header.msgType.allowedPreauth = false →
        ¬Earned l (handle l session hello arrivals).trace →
        ∃ reply, Carries l.codec.errorMsg (handle l session hello arrivals).world.conn .error
            frame.header.streamId
            ⟨Code.authRequired, "authenticate before issuing this request"⟩ reply ∧
          handle l session hello (arrivals ++ [⟨.ok frame, .ok ()⟩]) =
            ⟨.ok .next, (handle l session hello arrivals).world,
              (handle l session hello arrivals).trace ++ [.sent reply.encode]⟩ := by
  have hgated : Gated l (handle l session hello arrivals).world
      (handle l session hello arrivals).trace := handle_gated arrivals
  refine ⟨hgated.throughout, fun frame hnext hpriv hnot => ?_⟩
  have hs : (handle l session hello arrivals).world.authenticated = false := by
    by_contra hs
    exact hnot (hgated.earned (Bool.not_eq_false _ ▸ hs))
  obtain ⟨reply, hcarries, hturn⟩ := turn_refuses hf hs hpriv
  refine ⟨reply, hcarries, ?_⟩
  rw [handle_append hnext, loop, bind_of_ok (by rw [hturn]), hturn]
  simp only [loop, pure, List.append_nil]

end Answers

section Oracle

variable {s : Session}

theorem decode_bind {α β : Type} {wire : Wire α} {frame : Frame} {x : α} {f : α → Handling β}
    (hdecode : wire.decode frame.payload = .ok x) (s : Session) :
    (decode wire frame >>= f) s = (emit (.decoded frame) >>= fun _ => f x) s := by
  unfold decode
  rw [hdecode]
  rfl

/-- A refused token is answered the same way whatever it is refused for. -/
theorem turn_refused {frame : Frame} {auth : Auth} {written : Except ErrorKind Unit}
    (hauth : frame.header.msgType = .auth)
    (hdecode : l.codec.auth.decode frame.payload = .ok auth) (hrefused : Refused l auth.token) :
    turn l ⟨.ok frame, written⟩ s = (emit (.dispatched frame) >>= fun _ =>
      emit (.decoded frame) >>= fun _ => sendError l ⟨.ok frame, written⟩ frame.header.streamId
        Code.unauthenticated "authentication failed" >>= fun _ => pure .next) s := by
  obtain ⟨hpresentable, e, hrefuse⟩ := hrefused
  have hopen : ¬(!s.authenticated && !frame.header.msgType.allowedPreauth) = true := by
    simp [hauth, MsgType.allowedPreauth]
  have hserve : serveFrame l ⟨.ok frame, written⟩ frame = emit (.decoded frame) >>= fun _ =>
      sendError l ⟨.ok frame, written⟩ frame.header.streamId Code.unauthenticated
        "authentication failed" >>= fun _ => pure .next := by
    funext w
    unfold serveFrame
    simp only [hauth]
    rw [decode_bind hdecode]
    simp only [validate_of_presentable hpresentable, hrefuse]
  rw [turn_frame, if_neg hopen, hserve]

theorem turn_alike {a b : Arrival} (h : SameButToken l a b) :
    Alike Event.reply (turn l a s) (turn l b s) := by
  rcases h with _ | ⟨written, hauth, hheader, hf, hg, hrefused, hrefused'⟩
  · exact .refl _
  rename_i f g auth auth'
  have hstream : g.header.streamId = f.header.streamId := by rw [hheader]
  rw [turn_refused hauth hf hrefused, turn_refused (by rw [hheader, hauth]) hg hrefused', hstream]
  exact alike_bind (alike_emit rfl rfl) fun _ _ =>
    alike_bind (alike_emit rfl rfl) fun _ _ => .refl _

theorem loop_alike : ∀ {as bs : List Arrival} {s : Session}, List.Forall₂ (SameButToken l) as bs →
    Alike Event.reply (loop l as s) (loop l bs s)
  | _, _, _, .nil => .refl _
  | _, _, _, .cons hab hrest => by
    refine alike_bind (turn_alike hab) fun flow s => ?_
    cases flow
    · exact loop_alike hrest
    · exact .refl _

/-- Two sessions that differ only in tokens that are refused, for whatever reason, get the same
answers, byte for byte, and come to the same end. -/
theorem not_an_oracle {as bs : List Arrival} (h : List.Forall₂ (SameButToken l) as bs)
    (session : String) (hello : List UInt8) :
    replies (handle l session hello as).trace = replies (handle l session hello bs).trace ∧
      (handle l session hello as).result = (handle l session hello bs).result ∧
      (handle l session hello as).world = (handle l session hello bs).world := by
  have halike : Alike Event.reply (handle l session hello as) (handle l session hello bs) :=
    alike_bind (.refl _) fun _ _ => loop_alike h
  exact ⟨halike.trace, halike.result, halike.world⟩

end Oracle

section Tokens

theorem authenticateToken_refuses (token : String) : ∃ e, authenticateToken token = .error e := by
  unfold authenticateToken
  split
  · split_ifs
    · exact ⟨_, rfl⟩
    · exact ⟨_, rfl⟩
  · exact ⟨_, rfl⟩

/-- As long as no token is recognized, nothing is made of any frame that needs authentication. -/
theorem closed_to_all (hl : l.authenticate = authenticateToken) (session : String)
    (hello : List UInt8) (arrivals : List Arrival) :
    ∀ e ∈ (handle l session hello arrivals).trace, ¬e.Privileged := by
  intro e he hpriv
  obtain ⟨before, after, hsplit⟩ := List.append_of_mem he
  obtain ⟨frame, -, -, auth, -, -, hok⟩ :=
    (handle_gated (l := l) arrivals).throughout before e after hsplit hpriv
  obtain ⟨e', herror⟩ := authenticateToken_refuses auth.token
  rw [hl, herror] at hok
  cases hok

end Tokens

section Sample

open LittleEndian

/-- A wire for messages that are one text. -/
def textWire {α : Type} (text : α → String) (ofText : String → α) : Wire α where
  encode x := .ok (plainText (text x))
  decode b := Except.mapError (fun _ => .decode "text") do
    let (s, _) ← readText b
    pure (ofText s)

def numberWire {α : Type} (number : α → Fin (2 ^ 64)) (ofNumber : Fin (2 ^ 64) → α) : Wire α where
  encode x := .ok (toLe 8 (number x))
  decode b := .ok (ofNumber ⟨ofLe (b.take 8) % 2 ^ 64, Nat.mod_lt _ (Nat.two_pow_pos 64)⟩)

/-- A wire of which only the name of the one project that is submitted is looked at. -/
def sampleSessionCodec : SessionCodec where
  toCodec := sampleCodec
  ping := numberWire Ping.nonce Ping.mk
  pong := numberWire Pong.nonce Pong.mk
  auth := textWire Auth.token Auth.mk
  authOk := textWire AuthOk.principalKind fun kind => ⟨"", kind, "", []⟩
  submitRun := textWire SubmitRun.project fun project => ⟨project, "ci", [], none, none, none⟩

def sampleListener : Listener :=
  ⟨currentBuild, sampleSessionCodec, "jetrun-server/0.1.0", authenticateToken⟩

/-- The first message of a client. -/
def sampleHello : List UInt8 :=
  (negotiate currentBuild currentBuild sampleCodec "jet-cli/test" "srv" "session").sent

def sampleFrame (msgType : MsgType) (streamId : U32) (payload : List UInt8) : Frame :=
  ⟨⟨1, msgType, Flags.none, streamId, Fin.ofNat _ payload.length⟩, payload⟩

def authFrame (token : String) : Frame := sampleFrame .auth 3 (plainText token)

def submitFrame : Frame := sampleFrame .submitRun 5 (plainText "web")

/-- A token in the right format, that is not recognized. -/
def unknownToken : Arrival := ⟨.ok (authFrame "jetr_abcd1234_wrongsecret"), .ok ()⟩

/-- After the handshake and a refused token, a run is submitted. -/
theorem submit_gated : ∃ reply,
    Carries sampleSessionCodec.errorMsg ⟨1, 15, 2, false⟩ .error 5
      ⟨Code.authRequired, "authenticate before issuing this request"⟩ reply ∧
    handle sampleListener "session" sampleHello [unknownToken, ⟨.ok submitFrame, .ok ()⟩] =
      ⟨.ok .next, ⟨⟨1, 15, 2, false⟩, false⟩,
        (handle sampleListener "session" sampleHello [unknownToken]).trace
          ++ [.sent reply.encode]⟩ := by
  have hworld : (handle sampleListener "session" sampleHello [unknownToken]).world
      = ⟨⟨1, 15, 2, false⟩, false⟩ := by decide +kernel
  rw [← hworld]
  refine (gate (l := sampleListener) sampleCodec_faithful.errorMsg "session" sampleHello
    [unknownToken]).2 submitFrame (by decide +kernel) rfl ?_
  rintro ⟨frame, -, -, auth, -, -, hok⟩
  obtain ⟨e, hrefuse⟩ := authenticateToken_refuses auth.token
  cases hrefuse.symm.trans hok

theorem refused_of_presentable {token : String} (h : Presentable token) :
    Refused sampleListener token := ⟨h, authenticateToken_refuses token⟩

/-- A malformed token and an unknown one, each followed by the same request. -/
theorem tokens_alike :
    replies (handle sampleListener "session" sampleHello
      [⟨.ok (authFrame "garbage"), .ok ()⟩, ⟨.ok submitFrame, .ok ()⟩]).trace =
    replies (handle sampleListener "session" sampleHello
      [unknownToken, ⟨.ok submitFrame, .ok ()⟩]).trace := by
  have hmalformed : sampleListener.codec.auth.decode (authFrame "garbage").payload
      = .ok ⟨"garbage"⟩ := by decide +kernel
  have hunknown : sampleListener.codec.auth.decode (authFrame "jetr_abcd1234_wrongsecret").payload
      = .ok ⟨"jetr_abcd1234_wrongsecret"⟩ := by decide +kernel
  have htokens : SameButToken sampleListener ⟨.ok (authFrame "garbage"), .ok ()⟩ unknownToken :=
    .token (.ok ()) rfl rfl hmalformed hunknown (refused_of_presentable ⟨by decide, by decide⟩)
      (refused_of_presentable ⟨by decide, by decide⟩)
  exact (not_an_oracle (.cons htokens (.cons (.same _) .nil)) "session" sampleHello).1

end Sample

end Jrp

end Jetrun
