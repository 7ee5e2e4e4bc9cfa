import Jetrun.Proofs.Jrp
import Jetrun.Replies

/-!
# One reply for each request

Whatever a peer sends after the handshake: up to the frame that ends the session, each is answered
with one frame, on its own stream and in its turn (`one_reply`).
-/

namespace Jetrun

section Texts

theorem utf8ByteSize_le (cs : List Char) : (String.ofList cs).utf8ByteSize ≤ 4 * cs.length := by
  induction cs with
  | nil => exact Nat.le_refl 0
  | cons c cs ih =>
    rw [String.ofList_cons, String.utf8ByteSize_append, String.utf8ByteSize_singleton,
      List.length_cons]
    have hc := c.utf8Size_le_four
    omega

/-- A number of 64 bits has at most 20 digits. -/
theorem repr_utf8ByteSize_le {n : ℕ} (h : n < 2 ^ 64) : n.repr.utf8ByteSize ≤ 80 := by
  have hdigits : n.repr.length ≤ 20 := (Nat.length_repr_le_iff (by omega)).2 (by omega)
  have hsize := utf8ByteSize_le n.repr.toList
  rw [String.ofList_toList, String.length_toList] at hsize
  omega

/-- The texts of errors about a field whose name is no longer than that of any field. -/
theorem Invalid.toString_le {e : Invalid} {field : String} {len max : ℕ}
    (he : e = .tooLong field len max ∨ e = .empty field) (hfield : field.utf8ByteSize ≤ 15)
    (hlen : len < 2 ^ 64) (hmax : max < 2 ^ 64) : e.toString.utf8ByteSize ≤ 200 := by
  have hlen' := repr_utf8ByteSize_le hlen
  have hmax' := repr_utf8ByteSize_le hmax
  have his : " is ".utf8ByteSize = 4 := by decide
  have hlimit : " bytes, limit is ".utf8ByteSize = 17 := by decide
  have hempty : " must not be empty".utf8ByteSize = 18 := by decide
  rcases he with rfl | rfl <;> simp only [Invalid.toString, String.utf8ByteSize_append] <;> omega

end Texts

section Refusals

variable {field : String} {max : ℕ} {e : Invalid}

theorem bounded_refusal {s : String} (hfield : field.utf8ByteSize ≤ 15)
    (hlen : s.utf8ByteSize < 2 ^ 64) (hmax : max < 2 ^ 64) (h : bounded field s max = .error e) :
    e.toString.utf8ByteSize ≤ 200 := by
  unfold bounded at h
  split_ifs at h
  exact Invalid.toString_le (.inl (Except.error.inj h).symm) hfield hlen hmax

theorem nonemptyBounded_refusal {s : String} (hfield : field.utf8ByteSize ≤ 15)
    (hlen : s.utf8ByteSize < 2 ^ 64) (hmax : max < 2 ^ 64)
    (h : nonemptyBounded field s max = .error e) : e.toString.utf8ByteSize ≤ 200 := by
  unfold nonemptyBounded at h
  split_ifs at h
  · exact Invalid.toString_le (.inr (Except.error.inj h).symm) hfield hlen hmax
  · exact bounded_refusal hfield hlen hmax h

theorem boundedIfSome_refusal {s : Option String} (hfield : field.utf8ByteSize ≤ 15)
    (hlen : ∀ text, s = some text → text.utf8ByteSize < 2 ^ 64) (hmax : max < 2 ^ 64)
    (h : boundedIfSome field s max = .error e) : e.toString.utf8ByteSize ≤ 200 := by
  cases s with
  | none => cases h
  | some text => exact bounded_refusal hfield (hlen text rfl) hmax h

theorem error_of_bind {ε α β : Type} {x : Except ε α} {f : α → Except ε β} {e : ε}
    (h : x >>= f = .error e) : x = .error e ∨ ∃ a, x = .ok a ∧ f a = .error e := by
  cases x with
  | error e' => exact .inl (congrArg Except.error (Except.error.inj h))
  | ok a => exact .inr ⟨a, rfl, h⟩

theorem Auth.refusal {a : Auth} (hlen : a.token.utf8ByteSize < 2 ^ 64)
    (h : a.validate = .error e) : e.toString.utf8ByteSize ≤ 200 :=
  nonemptyBounded_refusal (by decide) hlen (by decide) h

theorem SubmitRun.refusal {r : SubmitRun} (hlen : ∀ n ∈ r.lengths, n < 2 ^ 64)
    (h : r.validate = .error e) : e.toString.utf8ByteSize ≤ 200 := by
  have hoptional : ∀ field ∈ [r.commitSha, r.reference, r.idempotencyKey], ∀ text,
      field = some text → text.utf8ByteSize < 2 ^ 64 := by
    rintro field hfield text rfl
    refine hlen _ (List.mem_append_right _ (List.mem_filterMap.2 ⟨_, hfield, rfl⟩))
  unfold SubmitRun.validate at h
  rcases error_of_bind h with h | ⟨-, -, h⟩
  · exact nonemptyBounded_refusal (by decide) (hlen _ (by simp [lengths])) (by decide) h
  rcases error_of_bind h with h | ⟨-, -, h⟩
  · exact nonemptyBounded_refusal (by decide) (hlen _ (by simp [lengths])) (by decide) h
  have hrest : (do
      boundedIfSome "commit_sha" r.commitSha Limits.maxIdLen
      boundedIfSome "reference" r.reference Limits.maxRefLen
      boundedIfSome "idempotency_key" r.idempotencyKey Limits.maxIdempotencyLen) = .error e →
        e.toString.utf8ByteSize ≤ 200 := by
    intro h
    rcases error_of_bind h with h | ⟨-, -, h⟩
    · exact boundedIfSome_refusal (by decide) (hoptional _ (by simp)) (by decide) h
    rcases error_of_bind h with h | ⟨-, -, h⟩
    · exact boundedIfSome_refusal (by decide) (hoptional _ (by simp)) (by decide) h
    · exact boundedIfSome_refusal (by decide) (hoptional _ (by simp)) (by decide) h
  split_ifs at h with hlong
  · refine Invalid.toString_le (.inl (Except.error.inj h).symm) (by decide) ?_ (by decide)
    exact hlen _ (by simp [lengths])
  · exact hrest h

end Refusals

namespace Jrp

open JrpConn Traced Runs

variable {l : Listener} {s : Session}

section Sending

variable {α : Type} {wire : Wire α} {a : Arrival} {value : α}

theorem fits_errorMsg (hu : l.codec.Usable) {code : U16} {message : String}
    (h : message.utf8ByteSize ≤ 200) : l.codec.errorMsg.Fits ⟨code, message⟩ := by
  have hsmall : ErrorMsg.text ⟨code, message⟩ + archiveOverhead ≤ maxPayload := by
    have hmax : 200 + archiveOverhead ≤ maxPayload := by decide
    simp only [ErrorMsg.text]
    omega
  obtain ⟨bytes, hencode, hlen, -⟩ := hu.errorMsg ⟨code, message⟩ (by omega)
  exact ⟨bytes, hencode, hlen.trans hsmall⟩

/-- What fits into a frame is sent as one. -/
theorem send_fits (hfits : wire.Fits value) (hwritten : a.written = .ok ()) (msgType : MsgType)
    (streamId : U32) (flags : U16) (s : Session) :
    ∃ reply : Frame, reply.header.streamId = streamId ∧
      (reply.header.payloadLen : ℕ) = reply.payload.length ∧
      send l a wire msgType streamId value flags s = ⟨.ok (), s, [.sent reply.encode]⟩ := by
  obtain ⟨payload, hencode, hlen⟩ := hfits
  obtain ⟨bytes, hsend⟩ : ∃ bytes,
      s.conn.send l.build wire msgType streamId value flags = .ok bytes := by
    simp only [JrpConn.send, hencode, if_neg hlen.not_gt]
    exact ⟨_, rfl⟩
  obtain ⟨reply, hreply, -, rfl⟩ := send_ok (m := ⟨α, wire, msgType, streamId, value, flags⟩) hsend
  exact ⟨reply, by rw [hreply.header], hreply.payloadLen, send_sent hsend hwritten⟩

end Sending

section Turns

/-- One reply, on the stream of the frame, and another turn. -/
structure Answered (l : Listener) (s : Session) (frame : Frame)
    (o : Outcome Session SessionError Event Flow) : Prop where
  next : o.result = .ok .next
  authenticated : o.world.authenticated = true ↔ s.authenticated = true ∨ Admits l frame
  reply : ∃ reply : Frame, reply.header.streamId = frame.header.streamId ∧
    (reply.header.payloadLen : ℕ) = reply.payload.length ∧ replies o.trace = [reply.encode]

/-- No reply and no other turn. -/
structure Ended (o : Outcome Session SessionError Event Flow) : Prop where
  last : o.result ≠ .ok .next
  silent : replies o.trace = []

variable {a : Arrival} {frame : Frame}

theorem emit_bind {α : Type} (e : Event) (f : Unit → Handling α) (s : Session) :
    (emit e >>= f) s = ⟨(f () s).result, (f () s).world, e :: (f () s).trace⟩ := rfl

theorem answered_emit {e : Event} (he : e.reply = none) {f : Unit → Handling Flow}
    (h : Answered l s frame (f () s)) : Answered l s frame ((emit e >>= f) s) := by
  obtain ⟨reply, hstream, hlen, hreplies⟩ := h.reply
  rw [emit_bind]
  refine ⟨h.next, h.authenticated, reply, hstream, hlen, ?_⟩
  rwa [replies, List.filterMap_cons_none he]

theorem ended_emit {e : Event} (he : e.reply = none) {f : Unit → Handling Flow}
    (h : Ended (f () s)) : Ended ((emit e >>= f) s) := by
  rw [emit_bind]
  refine ⟨h.last, ?_⟩
  rw [replies, List.filterMap_cons_none he]
  exact h.silent

theorem answered_send {α : Type} {wire : Wire α} {value : α} (hfits : wire.Fits value)
    (hwritten : a.written = .ok ()) (msgType : MsgType) (flags : U16) {t : Session}
    (hauth : t.authenticated = true ↔ s.authenticated = true ∨ Admits l frame) :
    Answered l s frame ((send l a wire msgType frame.header.streamId value flags >>=
      fun _ => pure Flow.next) t) := by
  obtain ⟨reply, hstream, hlen, hsend⟩ :=
    send_fits (l := l) hfits hwritten msgType frame.header.streamId flags t
  rw [bind_of_ok (by rw [hsend]), hsend]
  exact ⟨rfl, hauth, reply, hstream, hlen, rfl⟩

/-- A frame that does not admit its peer is answered with an error. -/
theorem answered_error (hu : l.codec.Usable) (hwritten : a.written = .ok ()) (code : U16)
    {message : String} (h : message.utf8ByteSize ≤ 200) (hnot : ¬Admits l frame) :
    Answered l s frame ((sendError l a frame.header.streamId code message >>=
      fun _ => pure Flow.next) s) :=
  answered_send (fits_errorMsg hu h) hwritten .error Flags.endStream (by simp [hnot])

/-- An arm that reads its payload first. -/
theorem decode_cases {α : Type} (wire : Wire α) (frame : Frame) :
    Unreadable wire frame ∨ ∃ x, wire.decode frame.payload = .ok x := by
  by_cases h : ∃ x, wire.decode frame.payload = .ok x
  · exact .inr h
  · exact .inl (not_exists.1 h)

theorem ended_decode {α : Type} {wire : Wire α} (h : Unreadable wire frame)
    (f : α → Handling Flow) : Ended ((decode wire frame >>= f) s) := by
  cases hdecode : wire.decode frame.payload with
  | ok x => exact absurd hdecode (h x)
  | error e =>
    have hresult : (decode wire frame s).result = .error (.codec e) := by
      unfold decode
      rw [hdecode]
      rfl
    rw [bind_of_error hresult]
    refine ⟨by simp, ?_⟩
    unfold decode
    rw [hdecode]
    rfl

theorem not_admits_of_type (h : frame.header.msgType ≠ .auth) : ¬Admits l frame :=
  fun hadmits => h hadmits.1

/-- Whether the frame ends the session or is answered. -/
def Settled (l : Listener) (s : Session) (frame : Frame)
    (o : Outcome Session SessionError Event Flow) : Prop :=
  (Ends l (s.authenticated = true) frame ∧ Ended o) ∨
    ¬Ends l (s.authenticated = true) frame ∧ Answered l s frame o

theorem ends_iff {authenticated : Prop} : Ends l authenticated frame ↔
    frame.header.msgType = .goodbye ∨
      frame.header.msgType = .ping ∧ Unreadable l.codec.ping frame ∨
      frame.header.msgType = .auth ∧ Unreadable l.codec.auth frame ∨
      frame.header.msgType = .submitRun ∧ authenticated ∧ Unreadable l.codec.submitRun frame := by
  constructor
  · rintro (h | ⟨h, hread⟩ | ⟨h, hread⟩ | ⟨h, hauth, hread⟩)
    · exact .inl h
    · exact .inr (.inl ⟨h, hread⟩)
    · exact .inr (.inr (.inl ⟨h, hread⟩))
    · exact .inr (.inr (.inr ⟨h, hauth, hread⟩))
  · rintro (h | ⟨h, hread⟩ | ⟨h, hread⟩ | ⟨h, hauth, hread⟩)
    · exact .goodbye h
    · exact .ping h hread
    · exact .auth h hread
    · exact .submitRun h hauth hread

theorem not_unreadable {α : Type} {wire : Wire α} {x : α}
    (hread : wire.decode frame.payload = .ok x) : ¬Unreadable wire frame :=
  fun hunread => hunread x hread

section Arms

variable (hu : l.codec.Usable) (hwritten : a.written = .ok ())

include hu hwritten

theorem serveFrame_ping (htype : frame.header.msgType = .ping) :
    Settled l s frame (serveFrame l a frame s) := by
  unfold serveFrame
  simp only [htype]
  rcases decode_cases l.codec.ping frame with hunread | ⟨p, hread⟩
  · exact .inl ⟨.ping htype hunread, ended_decode hunread _⟩
  · refine .inr ⟨by simp [ends_iff, htype, not_unreadable hread], ?_⟩
    have hnot : ¬Admits l frame := not_admits_of_type (by simp [htype])
    rw [decode_bind hread]
    exact answered_emit rfl (answered_send (hu.pong _) hwritten .pong Flags.none (by simp [hnot]))

theorem serveFrame_auth (htype : frame.header.msgType = .auth) :
    Settled l s frame (serveFrame l a frame s) := by
  unfold serveFrame
  simp only [htype]
  rcases decode_cases l.codec.auth frame with hunread | ⟨auth, hread⟩
  · exact .inl ⟨.auth htype hunread, ended_decode hunread _⟩
  refine .inr ⟨by simp [ends_iff, htype, not_unreadable hread], ?_⟩
  -- what is read is the one thing the frame can admit its peer with
  have honly : Admits l frame → Presentable auth.token ∧ l.authenticate auth.token = .ok () := by
    rintro ⟨-, auth', hread', hadmits⟩
    rw [hread] at hread'
    cases hread'
    exact hadmits
  rw [decode_bind hread]
  refine answered_emit rfl ?_
  cases hvalid : auth.validate with
  | error e =>
    refine answered_error hu hwritten _ (auth.refusal (hu.auth _ _ hread) hvalid) fun hadmits => ?_
    rw [validate_of_presentable (honly hadmits).1] at hvalid
    cases hvalid
  | ok u =>
    cases hverdict : l.authenticate auth.token with
    | error e =>
      refine answered_error hu hwritten _ (by decide) fun hadmits => ?_
      rw [(honly hadmits).2] at hverdict
      cases hverdict
    | ok u =>
      have hadmits : Admits l frame :=
        ⟨htype, auth, hread, presentable_of_validate hvalid, hverdict⟩
      exact answered_send (t := { s with authenticated := true }) hu.authOk hwritten .authOk
        Flags.endStream (by simp [hadmits])

theorem serveFrame_submitRun (hs : s.authenticated = true)
    (htype : frame.header.msgType = .submitRun) :
    Settled l s frame (serveFrame l a frame s) := by
  have hnot : ¬Admits l frame := not_admits_of_type (by simp [htype])
  unfold serveFrame
  simp only [htype]
  rcases decode_cases l.codec.submitRun frame with hunread | ⟨sub, hread⟩
  · exact .inl ⟨.submitRun htype hs hunread, ended_decode hunread _⟩
  refine .inr ⟨by simp [ends_iff, htype, not_unreadable hread], ?_⟩
  rw [decode_bind hread]
  refine answered_emit rfl ?_
  cases hvalid : sub.validate with
  | error e =>
    exact answered_error hu hwritten _ (sub.refusal (hu.submitRun _ _ hread) hvalid) hnot
  | ok u => exact answered_error hu hwritten _ (by decide) hnot

/-- Every arm answers its frame or ends the session. -/
theorem serveFrame_settled
    (hopen : s.authenticated = true ∨ frame.header.msgType.allowedPreauth = true) :
    Settled l s frame (serveFrame l a frame s) := by
  cases htype : frame.header.msgType with
  | ping => exact serveFrame_ping hu hwritten htype
  | auth => exact serveFrame_auth hu hwritten htype
  | submitRun =>
    refine serveFrame_submitRun hu hwritten (hopen.resolve_right ?_) htype
    simp [htype, MsgType.allowedPreauth]
  | goodbye =>
    refine .inl ⟨.goodbye htype, ?_⟩
    unfold serveFrame
    simp only [htype]
    exact ⟨by simp [pure], rfl⟩
  | _ =>
    refine .inr ⟨by simp [ends_iff, htype], ?_⟩
    have hnot : ¬Admits l frame := not_admits_of_type (by simp [htype])
    unfold serveFrame
    simp only [htype]
    exact answered_error hu hwritten _ (by decide) hnot

theorem turn_settled : Settled l s frame (turn l ⟨.ok frame, a.written⟩ s) := by
  rw [turn_frame]
  split_ifs with hclosed
  · rw [Bool.and_eq_true, Bool.not_eq_true', Bool.not_eq_true'] at hclosed
    obtain ⟨hs, hpriv⟩ := hclosed
    refine .inr ⟨fun hends => ?_, answered_error hu hwritten _ (by decide) ?_⟩
    · rcases ends_iff.1 hends with h | ⟨h, -⟩ | ⟨h, -⟩ | ⟨h, hauth, -⟩
      · simp [h, MsgType.allowedPreauth] at hpriv
      · simp [h, MsgType.allowedPreauth] at hpriv
      · simp [h, MsgType.allowedPreauth] at hpriv
      · simp [hs] at hauth
    · refine not_admits_of_type fun h => ?_
      simp [h, MsgType.allowedPreauth] at hpriv
  · have hopen : s.authenticated = true ∨ frame.header.msgType.allowedPreauth = true := by
      by_contra hne
      rw [not_or, Bool.not_eq_true, Bool.not_eq_true] at hne
      exact hclosed (by simp [hne.1, hne.2])
    rcases serveFrame_settled (a := ⟨.ok frame, a.written⟩) hu hwritten hopen with
      ⟨hends, hended⟩ | ⟨hnot, hanswered⟩
    · exact .inl ⟨hends, ended_emit rfl hended⟩
    · exact .inr ⟨hnot, answered_emit rfl hanswered⟩

end Arms

end Turns

section Conversations

variable {session : String} {hello : List UInt8}

/-- The requests that are answered, the frames that answer them, and what is left when the session
has ended. -/
structure Dialogue (l : Listener) (before requests : List Request) (trace : List Event)
    (served : List Request) (frames : List Frame) (rest : List Request) : Prop where
  requests_eq : requests = served ++ rest
  served_on : Throughout (fun earlier r => ¬r.ends l (before ++ earlier)) served
  ended : ∀ r, rest.head? = some r → r.ends l (before ++ served)
  answers : List.Forall₂ Request.Answer served frames
  replies_eq : replies trace = frames.map Frame.encode

theorem attend_dialogue (hu : l.codec.Usable) : ∀ (requests before : List Request) {s : Session},
    (s.authenticated = true ↔ ∃ q ∈ before, q.admitted l) →
      ∃ served frames rest,
        Dialogue l before requests (attend l requests s).trace served frames rest
  | [], before, s, _ => ⟨[], [], [], rfl, throughout_nil _, by simp, .nil, rfl⟩
  | r :: requests, before, s, hs => by
    have hsettled : Settled { l with authenticate := r.authenticate } s r.frame
        (turn { l with authenticate := r.authenticate } ⟨.ok r.frame, .ok ()⟩ s) :=
      turn_settled (a := ⟨.ok r.frame, .ok ()⟩) hu rfl
    have hends : Ends { l with authenticate := r.authenticate } (s.authenticated = true) r.frame ↔
        r.ends l before := by
      rw [Request.ends, ends_iff, ends_iff, hs]
    rcases hsettled with ⟨hend, hended⟩ | ⟨hnot, hanswered⟩
    · refine ⟨[], [], r :: requests, rfl, throughout_nil _, ?_, .nil, ?_⟩
      · rintro q hq
        obtain rfl := Option.some.inj hq
        rw [List.append_nil]
        exact hends.1 hend
      · have hlast := hended.last
        rw [attend]
        cases hresult : (turn { l with authenticate := r.authenticate }
            ⟨.ok r.frame, .ok ()⟩ s).result with
        | error e =>
          rw [bind_of_error hresult]
          exact hended.silent
        | ok flow =>
          cases flow with
          | next => exact absurd hresult hlast
          | done =>
            rw [bind_of_ok hresult]
            simpa [replies, pure] using hended.silent
    · obtain ⟨reply, hstream, hlen, hreply⟩ := hanswered.reply
      have hs' := hanswered.authenticated
      obtain ⟨served, frames, rest, hdialogue⟩ := attend_dialogue hu requests (before ++ [r])
        (s := (turn { l with authenticate := r.authenticate } ⟨.ok r.frame, .ok ()⟩ s).world)
        (by rw [hs', hs]; simp [Request.admitted, or_comm])
      refine ⟨r :: served, reply :: frames, rest, ?_, ?_, fun q hq => ?_, ?_, ?_⟩
      · rw [hdialogue.requests_eq, List.cons_append]
      · rw [show r :: served = [r] ++ served from rfl, throughout_append, throughout_singleton]
        refine ⟨by rw [List.append_nil]; exact fun h => hnot (hends.2 h), ?_⟩
        simpa only [List.append_assoc] using hdialogue.served_on
      · have hend := hdialogue.ended q hq
        rwa [List.append_assoc] at hend
      · exact .cons ⟨hstream, hlen⟩ hdialogue.answers
      · rw [attend, bind_of_ok hanswered.next, replies, List.filterMap_append]
        exact congrArg₂ (· ++ ·) hreply hdialogue.replies_eq

/-- Nobody is authenticated by the handshake. -/
theorem greet_authenticated {s : Session} {h : List Event} :
    Leads (fun _ => True) (greet l session hello)
      (fun _ s' _ => s'.authenticated = s.authenticated) s h := by
  unfold greet
  refine leads_get_bind ?_
  dsimp only
  have hfinish : ∀ {h : List Event} {served : Except SessionError (JrpConn × Hello)},
      Leads (fun _ => True) (Traced.ofExcept served >>= fun r =>
          act (modify fun s => { s with conn := r.1 }))
        (fun _ s' _ => s'.authenticated = s.authenticated) s h :=
    leads_ofExcept_bind (fun served _ => leads_act rfl) fun _ _ => rfl
  split_ifs
  · exact hfinish
  · exact leads_emit_bind fun _ => hfinish

/-- Where every token is judged as the listener judges it, it is the session of the listener. -/
theorem converse_eq_handle {requests : List Request}
    (h : ∀ r ∈ requests, r.authenticate = l.authenticate) :
    converse l session hello requests =
      handle l session hello (requests.map fun r => ⟨.ok r.frame, .ok ()⟩) := by
  have hattend : ∀ requests : List Request, (∀ r ∈ requests, r.authenticate = l.authenticate) →
      attend l requests = loop l (requests.map fun r => ⟨.ok r.frame, .ok ()⟩) := by
    intro requests
    induction requests with
    | nil => exact fun _ => rfl
    | cons r requests ih =>
      intro h
      rw [attend, h r List.mem_cons_self, ih fun q hq => h q (List.mem_cons_of_mem _ hq)]
      rfl
  rw [converse, hattend requests h]
  rfl

/-- After the handshake every request up to the one that ends the session, and no other, gets exactly
one reply, in its turn and on its own stream. -/
theorem one_reply (hu : l.codec.Usable)
    (hgreet : (greet l session hello (Session.start l)).result = .ok ())
    (requests : List Request) :
    ∃ served rest frames, requests = served ++ rest ∧
      Throughout (fun before r => ¬r.ends l before) served ∧
      (∀ r, rest.head? = some r → r.ends l served) ∧
      List.Forall₂ Request.Answer served frames ∧
      replies (converse l session hello requests).trace =
        replies (greet l session hello (Session.start l)).trace ++ frames.map Frame.encode := by
  have hstart : (greet l session hello (Session.start l)).world.authenticated = true ↔
      ∃ q ∈ ([] : List Request), q.admitted l := by
    rw [greet_authenticated.outcome]
    simp [Session.start]
  obtain ⟨served, frames, rest, hdialogue⟩ := attend_dialogue hu requests [] hstart
  refine ⟨served, rest, frames, hdialogue.requests_eq, hdialogue.served_on, hdialogue.ended,
    hdialogue.answers, ?_⟩
  rw [converse, bind_of_ok hgreet, replies, List.filterMap_append]
  exact congrArg _ hdialogue.replies_eq

end Conversations

section Sample

theorem readText_lt {b rest : List UInt8} {s : String} (h : readText b = .ok (s, rest)) :
    s.utf8ByteSize < 2 ^ 64 := by
  obtain ⟨⟨n, r⟩, hn, hs⟩ := Except.eq_ok_of_bind h
  obtain ⟨⟨digits, r'⟩, hdigits, hn⟩ := Except.eq_ok_of_bind hn
  obtain ⟨⟨text, r''⟩, htext, hs⟩ := Except.eq_ok_of_bind hs
  unfold Reader.take at hdigits htext
  split_ifs at hdigits htext with hd ht
  cases hdigits
  cases htext
  cases hn
  have hlen := LittleEndian.ofLe_lt (b.take 4)
  have hfour : (b.take 4).length ≤ 4 := by simp
  have hpow : 256 ^ (b.take 4).length ≤ 256 ^ 4 := Nat.pow_le_pow_right (by omega) hfour
  cases hdecode : Utf8.decode (List.take (LittleEndian.ofLe (b.take 4)) (b.drop 4)) with
  | none => simp [hdecode, throw, throwThe, MonadExceptOf.throw] at hs
  | some s' =>
    simp only [hdecode] at hs
    cases hs
    rw [← Utf8.length_encode, Utf8.encode_of_decode hdecode, List.length_take]
    omega

theorem textWire_lt {α : Type} (text : α → String) (ofText : String → α) {b : List UInt8} {x : α}
    (h : (textWire text ofText).decode b = .ok x) :
    ∃ s : String, s.utf8ByteSize < 2 ^ 64 ∧ x = ofText s := by
  have hread := Except.eq_ok_of_mapError h
  obtain ⟨⟨s, rest⟩, hs, hx⟩ := Except.eq_ok_of_bind hread
  exact ⟨s, readText_lt hs, (Except.ok.inj hx).symm⟩

theorem sampleSessionCodec_usable : sampleSessionCodec.Usable where
  errorMsg := sampleCodec_faithful.errorMsg
  pong p := ⟨_, rfl, by rw [LittleEndian.length_toLe]; decide⟩
  authOk := ⟨_, rfl, by decide⟩
  auth bytes a h := by
    obtain ⟨s, hs, rfl⟩ := textWire_lt Auth.token Auth.mk h
    exact hs
  submitRun bytes r h := by
    obtain ⟨s, hs, rfl⟩ := textWire_lt SubmitRun.project
      (fun project => ⟨project, "ci", [], none, none, none⟩) h
    have hci : "ci".utf8ByteSize = 2 := by decide
    intro n hn
    simp only [SubmitRun.lengths, List.filterMap_cons, Option.map_none, List.filterMap_nil,
      List.append_nil, List.mem_cons, List.length_nil, List.not_mem_nil, or_false] at hn
    rcases hn with rfl | rfl | rfl
    · exact hs
    · omega
    · omega

/-- A ping, a token, a run, the end, and something after it. -/
def sampleRequests : List Request :=
  [⟨sampleFrame .ping 7 (LittleEndian.toLe 8 42), authenticateToken⟩,
    ⟨authFrame "jetr_abcd1234_wrongsecret", authenticateToken⟩, ⟨submitFrame, authenticateToken⟩,
    ⟨sampleFrame .goodbye 9 [], authenticateToken⟩, ⟨submitFrame, authenticateToken⟩]

theorem sample_replied : ∃ served rest frames, sampleRequests = served ++ rest ∧
    Throughout (fun before r => ¬r.ends sampleListener before) served ∧
    (∀ r, rest.head? = some r → r.ends sampleListener served) ∧
    List.Forall₂ Request.Answer served frames ∧
    replies (converse sampleListener "session" sampleHello sampleRequests).trace =
      replies (greet sampleListener "session" sampleHello (Session.start sampleListener)).trace
        ++ frames.map Frame.encode :=
  one_reply sampleSessionCodec_usable (by decide +kernel) sampleRequests

end Sample

end Jrp

end Jetrun
