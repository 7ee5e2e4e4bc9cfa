import Jetrun.Lib.Runs

/-!
# Two programs on a connection

What an end of a connection does next is to send, to read as soon as enough has arrived, or nothing
any more. What is sent arrives, in order. A read takes what `cut` says it takes; at the end of the
stream it gets what is left.

The ends move in any order. But what has arrived for a read is only ever added to behind what the
read takes, so the moves of the two ends commute (`commuting`): one run that settles tells how every
run ends.
-/

namespace Dialogue

open Runs

variable {β σ τ : Type*}

inductive Act (β σ : Type*)
  | send (bytes : List β) (next : σ)
  | recv (next : List β → σ)
  | ended

/-- The program of an end, and how much of what has arrived a read of it takes. -/
structure Party (β σ : Type*) where
  act : σ → Act β σ
  cut : List β → Option ℕ
  cut_append : ∀ {arrived n} (more : List β), cut arrived = some n →
    n ≤ arrived.length ∧ cut (arrived ++ more) = some n

/-- An end: where its program is, and what has arrived and was not read yet. -/
@[ext] structure Seat (β σ : Type*) where
  state : σ
  inbox : List β

namespace Seat

def receive (e : Seat β σ) (bytes : List β) : Seat β σ := { e with inbox := e.inbox ++ bytes }

@[simp] theorem receive_nil (e : Seat β σ) : e.receive [] = e := by simp [receive]

@[simp] theorem receive_state (e : Seat β σ) (bytes : List β) :
    (e.receive bytes).state = e.state := rfl

end Seat

namespace Party

variable (p : Party β σ)

def ended (e : Seat β σ) : Bool :=
  match p.act e.state with
  | .ended => true
  | _ => false

/-- One move of an end, with what it sends. It knows whether the other end is over. -/
def move (peerEnded : Bool) (e : Seat β σ) : Option (Seat β σ × List β) :=
  match p.act e.state with
  | .send bytes next => some (⟨next, e.inbox⟩, bytes)
  | .recv next =>
    match p.cut e.inbox with
    | some n => some (⟨next (e.inbox.take n), e.inbox.drop n⟩, [])
    | none => if peerEnded then some (⟨next e.inbox, []⟩, []) else none
  | .ended => none

variable {p}

theorem ended_eq_false {peerEnded : Bool} {e : Seat β σ} {m : Seat β σ × List β}
    (h : p.move peerEnded e = some m) : p.ended e = false := by
  unfold move at h
  unfold ended
  cases hact : p.act e.state with
  | ended => simp [hact] at h
  | send bytes next => rfl
  | recv next => rfl

theorem move_ended {peerEnded : Bool} {e : Seat β σ} (h : p.ended e = true) :
    p.move peerEnded e = none := by
  cases hm : p.move peerEnded e with
  | none => rfl
  | some m =>
    rw [ended_eq_false hm] at h
    cases h

/-- A move that does not need the end of the stream can be made later as well. -/
theorem move_receive {e e' : Seat β σ} {bytes : List β} (h : p.move false e = some (e', bytes))
    (more : List β) (peerEnded : Bool) :
    p.move peerEnded (e.receive more) = some (e'.receive more, bytes) := by
  unfold move at h ⊢
  rw [Seat.receive_state]
  cases hact : p.act e.state with
  | ended => simp [hact] at h
  | send sent next =>
    simp only [hact, Option.some.injEq, Prod.mk.injEq] at h ⊢
    obtain ⟨rfl, rfl⟩ := h
    exact ⟨rfl, rfl⟩
  | recv next =>
    simp only [hact] at h ⊢
    cases hcut : p.cut e.inbox with
    | none => simp [hcut] at h
    | some n =>
      obtain ⟨hle, hmore⟩ := p.cut_append more hcut
      simp only [hcut, Option.some.injEq, Prod.mk.injEq] at h
      obtain ⟨rfl, rfl⟩ := h
      simp only [Seat.receive, hmore, List.take_append_of_le_length hle,
        List.drop_append_of_le_length hle]

end Party

/-- A connection: its two ends. -/
structure Link (β σ τ : Type*) where
  left : Seat β σ
  right : Seat β τ

inductive Side
  | left
  | right
deriving DecidableEq

section Runs

variable (p : Party β σ) (q : Party β τ)

def step (c : Link β σ τ) : Side → Option (Link β σ τ)
  | .left => (p.move (q.ended c.right) c.left).map fun m => ⟨m.1, c.right.receive m.2⟩
  | .right => (q.move (p.ended c.left) c.right).map fun m => ⟨c.left.receive m.2, m.1⟩

variable {p q}

theorem step_left {c c' : Link β σ τ} (h : step p q c .left = some c') :
    ∃ e bytes, p.move (q.ended c.right) c.left = some (e, bytes) ∧
      c' = ⟨e, c.right.receive bytes⟩ := by
  obtain ⟨m, hm, rfl⟩ := Option.map_eq_some_iff.1 h
  exact ⟨m.1, m.2, hm, rfl⟩

theorem step_right {c c' : Link β σ τ} (h : step p q c .right = some c') :
    ∃ e bytes, q.move (p.ended c.left) c.right = some (e, bytes) ∧
      c' = ⟨c.left.receive bytes, e⟩ := by
  obtain ⟨m, hm, rfl⟩ := Option.map_eq_some_iff.1 h
  exact ⟨m.1, m.2, hm, rfl⟩

/-- Neither end is over while both can move, so neither of them counts on the end of its stream. -/
theorem step_both {c c₁ c₂ : Link β σ τ} (h₁ : step p q c .left = some c₁)
    (h₂ : step p q c .right = some c₂) :
    ∃ c', step p q c₁ .right = some c' ∧ step p q c₂ .left = some c' := by
  obtain ⟨e, bytes, he, rfl⟩ := step_left h₁
  obtain ⟨f, answer, hf, rfl⟩ := step_right h₂
  rw [Party.ended_eq_false hf] at he
  rw [Party.ended_eq_false (p := p) he] at hf
  refine ⟨⟨e.receive answer, f.receive bytes⟩, ?_, ?_⟩
  · simp only [step, Party.move_receive hf, Option.map_some]
  · simp only [step, Party.move_receive he, Option.map_some]

theorem commuting : Commuting (step p q) := by
  intro c c₁ c₂ a b hab h₁ h₂
  match a, b with
  | .left, .right => exact step_both h₁ h₂
  | .right, .left =>
    obtain ⟨c', hleft, hright⟩ := step_both h₂ h₁
    exact ⟨c', hright, hleft⟩
  | .left, .left => exact absurd rfl hab
  | .right, .right => exact absurd rfl hab

theorem settled {c : Link β σ τ} (hp : p.ended c.left = true) (hq : q.ended c.right = true) :
    Settled (step p q) c := by
  intro side
  cases side with
  | left => simp [step, Party.move_ended hp]
  | right => simp [step, Party.move_ended hq]

/-- What the left end sends is read and answered by the right one, and the answer is read. -/
theorem exec_exchange {s s' : σ} {t t' : τ} {bytes answer : List β} {k : List β → σ}
    {h : List β → τ} (hsend : p.act s = .send bytes s') (hwait : p.act s' = .recv k)
    (hserve : q.act t = .recv h) (hanswer : q.act (h bytes) = .send answer t')
    (hbytes : q.cut bytes = some bytes.length) (hcut : p.cut answer = some answer.length) :
    exec (step p q) ⟨⟨s, []⟩, ⟨t, []⟩⟩ [.left, .right, .right, .left] =
      some ⟨⟨k answer, []⟩, ⟨t', []⟩⟩ := by
  simp [exec, step, Party.move, hsend, hwait, hserve, hanswer, hbytes, hcut, Seat.receive]

/-- The right end reads some of what the left one sends, and is over without an answer. -/
theorem exec_snub {s s' : σ} {t : τ} {bytes : List β} {k : List β → σ} {h : List β → τ} {n : ℕ}
    (hsend : p.act s = .send bytes s') (hwait : p.act s' = .recv k)
    (hserve : q.act t = .recv h) (hended : q.act (h (bytes.take n)) = .ended)
    (hbytes : q.cut bytes = some n) (hcut : p.cut [] = none) :
    exec (step p q) ⟨⟨s, []⟩, ⟨t, []⟩⟩ [.left, .right, .left] =
      some ⟨⟨k [], []⟩, ⟨h (bytes.take n), bytes.drop n⟩⟩ := by
  simp [exec, step, Party.move, Party.ended, hsend, hwait, hserve, hended, hbytes, hcut,
    Seat.receive]

/-- After the left end is over, the right one reads the end of its stream. -/
theorem exec_hang {s : σ} {t : τ} {h : List β → τ} (hended : p.act s = .ended)
    (hserve : q.act t = .recv h) (hcut : q.cut [] = none) :
    exec (step p q) ⟨⟨s, []⟩, ⟨t, []⟩⟩ [.right] = some ⟨⟨s, []⟩, ⟨h [], []⟩⟩ := by
  simp [exec, step, Party.move, Party.ended, hended, hserve, hcut, Seat.receive]

variable (p q) in
/-- However its ends are scheduled, the connection comes to rest there, after `n` moves. -/
def Settles (c t : Link β σ τ) (n : ℕ) : Prop :=
  Settled (step p q) t ∧ ∀ ms c', exec (step p q) c ms = some c' →
    ∃ rest, exec (step p q) c' rest = some t ∧ ms.length + rest.length = n

theorem settles_of_exec {c t : Link β σ τ} {ls : List Side} (h : exec (step p q) c ls = some t)
    (hp : p.ended t.left = true) (hq : q.ended t.right = true) : Settles p q c t ls.length :=
  ⟨settled hp hq, fun _ _ hms => exec_settles commuting (settled hp hq) h hms⟩

end Runs

/-- A program that is done with the connection after a number of sends and reads. -/
inductive Script (β ε α : Type)
  | send (bytes : List β) (next : Script β ε α)
  | recv (next : List β → Script β ε α)
  | ended (r : Except ε α)

namespace Script

variable {β ε α α' : Type}

def bind : Script β ε α → (α → Script β ε α') → Script β ε α'
  | send bytes next, f => send bytes (next.bind f)
  | recv next, f => recv fun bytes => (next bytes).bind f
  | ended (.ok a), f => f a
  | ended (.error e), _ => ended (.error e)

instance {β ε : Type} : Monad (Script β ε) where
  pure a := ended (.ok a)
  bind := Script.bind

def ofExcept (r : Except ε α) : Script β ε α := ended r

def fail (e : ε) : Script β ε α := ended (.error e)

def write (bytes : List β) : Script β ε Unit := send bytes (pure ())

def read : Script β ε (List β) := recv pure

def act : Script β ε α → Act β (Script β ε α)
  | send bytes next => .send bytes next
  | recv next => .recv next
  | ended _ => .ended

theorem ofExcept_bind (a : α) (f : α → Script β ε α') :
    (ofExcept (.ok a) : Script β ε α) >>= f = f a := rfl

theorem ok_bind (a : α) (f : α → Script β ε α') :
    (pure a : Script β ε α) >>= f = f a := rfl

@[simp] theorem act_send (bytes : List β) (next : Script β ε α) :
    (send bytes next).act = .send bytes next := rfl

@[simp] theorem act_recv (next : List β → Script β ε α) : (recv next).act = .recv next := rfl

@[simp] theorem act_ended (r : Except ε α) : (ended r : Script β ε α).act = .ended := rfl

end Script

end Dialogue
