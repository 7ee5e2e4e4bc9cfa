import Jetrun.Conn

/-!
# The stream ids of a connection

Each end numbers the streams it opens by itself: there is no counter the two ends share. Between two
calls the handshake may settle what the connection speaks.
-/

namespace Jetrun

namespace JrpConn

/-- What changes the state of one end: it opens a stream, or a handshake settles what is spoken. -/
inductive Use
  | nextStream
  | negotiated (version : U16) (peerCaps : U32)
deriving DecidableEq

/-- The ids that the calls of `next_stream` returned, in their order. -/
def streamIds : JrpConn → List Use → List U32
  | _, [] => []
  | c, .nextStream :: uses => c.nextStream.2 :: c.nextStream.1.streamIds uses
  | c, .negotiated version peerCaps :: uses => { c with version, peerCaps }.streamIds uses

/-- The id of the call before which there were `k`. The client comes back to 1 after the largest odd
id; the server leaves 0 out, and comes back to 2 one call earlier. -/
def nthStream (clientSide : Bool) (k : ℕ) : ℕ :=
  if clientSide then (1 + 2 * k) % 2 ^ 32 else 2 + 2 * (k % (2 ^ 31 - 1))

/-- The next id is that of the call before which there were `k`. -/
def Opened (c : JrpConn) (k : ℕ) : Prop := (c.nextStreamId : ℕ) = nthStream c.clientSide k

end JrpConn

/-- Two ids that were returned fewer than `n` calls apart are not the same. -/
def Apart (n : ℕ) (ids : List U32) : Prop :=
  ∀ i j a b, i < j → j - i < n → ids[i]? = some a → ids[j]? = some b → a ≠ b

end Jetrun
