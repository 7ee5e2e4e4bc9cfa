import Jetrun.Proofs.Negotiation
import Jetrun.Streams
import Mathlib.Algebra.Ring.Parity

/-!
# Stream ids do not collide

The counter is known in closed form on both sides, at the wrap as well as before it: the client's
runs through the odd numbers and the server's through the even ones that are not 0.
-/

namespace Jetrun

namespace JrpConn

section Numbering

theorem nthStream_odd (k : ℕ) : Odd (nthStream true k) := by
  rw [Nat.odd_iff]
  simp only [nthStream, if_true]
  omega

theorem nthStream_even (k : ℕ) : Even (nthStream false k) := by
  rw [Nat.even_iff]
  simp only [nthStream, Bool.false_eq_true, if_false]
  omega

theorem nthStream_pos (k : ℕ) : 0 < nthStream false k := by
  simp only [nthStream, Bool.false_eq_true, if_false]
  omega

theorem nthStream_ne {i j : ℕ} (clientSide : Bool) (hij : i < j) (hn : j - i < 2 ^ 31 - 1) :
    nthStream clientSide i ≠ nthStream clientSide j := by
  cases clientSide <;> simp only [nthStream, if_true, Bool.false_eq_true, if_false] <;> omega

theorem nthStream_round (clientSide : Bool) (k : ℕ) :
    nthStream clientSide (k + if clientSide then 2 ^ 31 else 2 ^ 31 - 1)
      = nthStream clientSide k := by
  cases clientSide <;> simp only [nthStream, if_true, Bool.false_eq_true, if_false] <;> omega

end Numbering

section Steps

variable {c : JrpConn} {k : ℕ}

theorem client_opened (build : Build) : (client build).Opened 0 := rfl

theorem server_opened (build : Build) : (server build).Opened 0 := rfl

theorem nextStream_val (c : JrpConn) : (c.nextStream.1.nextStreamId : ℕ)
    = max (((c.nextStreamId : ℕ) + 2) % 2 ^ 32) (if c.clientSide then 1 else 2) := by
  rcases hs : c.clientSide <;> simp only [nextStream, hs] <;> rfl

theorem Opened.nextStream (h : c.Opened k) : c.nextStream.1.Opened (k + 1) := by
  unfold Opened at h ⊢
  rw [nextStream_val, h]
  rcases hs : c.clientSide <;>
    simp only [JrpConn.nextStream, hs, nthStream, if_true, Bool.false_eq_true, if_false]
  · -- the sum wraps to 0 after `2 ^ 32 - 2`, and 2 is the larger of the two
    omega
  · -- an odd sum is at least 1, also where it wraps
    omega

end Steps

section Handshakes

variable {c c' : JrpConn} {build : Build} {codec : Codec} (uses : List Use)

/-- For the numbering a handshake is a stream of the client and what was agreed on. -/
theorem streamIds_hello (agent : String) :
    (c.clientHello build codec agent).1.streamIds uses
      = (c.streamIds (.nextStream :: uses)).tail := rfl

theorem streamIds_finish {arrived : List UInt8} {ack : HelloAck}
    (h : c.clientFinish build codec arrived = .ok (c', ack)) :
    c'.streamIds uses = c.streamIds (.negotiated ack.version ack.capabilities :: uses) := by
  obtain ⟨-, -, -, -, -, rfl⟩ := clientFinish_eq_ok h
  rfl

theorem streamIds_served {agent session : String} {arrived answer : List UInt8} {hello : Hello}
    (h : c.serverHandshake build codec agent session arrived = (answer, .ok (c', hello))) :
    c'.streamIds uses = c.streamIds
      (.negotiated (min build.version hello.maxVersion) hello.capabilities :: uses) := by
  obtain ⟨-, -, -, -, -, -, rfl, -⟩ := serverHandshake_eq_ok h
  rfl

end Handshakes

/-- The ids are the numbering's, whatever was settled in between. -/
theorem streamIds_nth : ∀ {uses : List Use} {c : JrpConn} {k i : ℕ} {id : U32}, c.Opened k →
    (c.streamIds uses)[i]? = some id → (id : ℕ) = nthStream c.clientSide (k + i)
  | .nextStream :: _, _, _, 0, _, hc, h => by
    simp only [streamIds, List.getElem?_cons_zero, Option.some.injEq] at h
    exact h ▸ hc
  | .nextStream :: uses, c, k, i + 1, _, hc, h => by
    simp only [streamIds, List.getElem?_cons_succ] at h
    rw [streamIds_nth hc.nextStream h, Nat.add_right_comm, ← Nat.add_assoc]
    rfl
  | .negotiated version peerCaps :: _, c, _, _, _, hc, h => by
    have hagreed : { c with version, peerCaps }.Opened _ := hc
    simp only [streamIds] at h
    have hid := streamIds_nth hagreed h
    exact hid

/-- A whole round later the same id is returned: on the server's side the bound below is the
largest there is. -/
theorem streamIds_round {c : JrpConn} {uses : List Use} {i : ℕ} {a b : U32} (hc : c.Opened 0)
    (ha : (c.streamIds uses)[i]? = some a)
    (hb : (c.streamIds uses)[i + if c.clientSide then 2 ^ 31 else 2 ^ 31 - 1]? = some b) :
    a = b := by
  have ha' := streamIds_nth hc ha
  have hb' := streamIds_nth hc hb
  rw [Nat.zero_add] at ha' hb'
  rw [nthStream_round] at hb'
  exact Fin.ext (ha'.trans hb'.symm)

section Sides

variable (build : Build) {uses : List Use} {i : ℕ} {id : U32}

theorem client_nth (h : ((client build).streamIds uses)[i]? = some id) :
    (id : ℕ) = nthStream true i := by
  rw [streamIds_nth (client_opened build) h, Nat.zero_add]
  rfl

theorem server_nth (h : ((server build).streamIds uses)[i]? = some id) :
    (id : ℕ) = nthStream false i := by
  rw [streamIds_nth (server_opened build) h, Nat.zero_add]
  rfl

variable (uses)

theorem client_apart : Apart (2 ^ 31 - 1) ((client build).streamIds uses) := by
  rintro i j a b hij hn ha hb rfl
  exact nthStream_ne true hij hn ((client_nth build ha).symm.trans (client_nth build hb))

theorem server_apart : Apart (2 ^ 31 - 1) ((server build).streamIds uses) := by
  rintro i j a b hij hn ha hb rfl
  exact nthStream_ne false hij hn ((server_nth build ha).symm.trans (server_nth build hb))

end Sides

/-- The two ends never open a stream of the same id, and none opens one twice before all ids of its
side were used. -/
theorem streamIds_apart (clientBuild serverBuild : Build) (clientUses serverUses : List Use) :
    (∀ id ∈ (client clientBuild).streamIds clientUses, Odd (id : ℕ)) ∧
      (∀ id ∈ (server serverBuild).streamIds serverUses, Even (id : ℕ) ∧ id ≠ 0) ∧
      ((client clientBuild).streamIds clientUses).Disjoint
        ((server serverBuild).streamIds serverUses) ∧
      Apart (2 ^ 31 - 1) ((client clientBuild).streamIds clientUses) ∧
      Apart (2 ^ 31 - 1) ((server serverBuild).streamIds serverUses) := by
  have hodd : ∀ id ∈ (client clientBuild).streamIds clientUses, Odd (id : ℕ) := by
    intro id hid
    obtain ⟨i, hi⟩ := List.mem_iff_getElem?.1 hid
    exact client_nth clientBuild hi ▸ nthStream_odd i
  have heven : ∀ id ∈ (server serverBuild).streamIds serverUses, Even (id : ℕ) ∧ id ≠ 0 := by
    intro id hid
    obtain ⟨i, hi⟩ := List.mem_iff_getElem?.1 hid
    have hid := server_nth serverBuild hi
    have hpos := nthStream_pos i
    refine ⟨hid ▸ nthStream_even i, ?_⟩
    rintro rfl
    exact hpos.ne hid
  refine ⟨hodd, heven, ?_, client_apart clientBuild clientUses, server_apart serverBuild serverUses⟩
  intro id hc hs
  exact Nat.not_even_iff_odd.2 (hodd id hc) (heven id hs).1

end JrpConn

end Jetrun
