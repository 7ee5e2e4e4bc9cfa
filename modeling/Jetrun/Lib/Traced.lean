import Mathlib.Data.List.Basic

/-!
# Computations that leave a trace

A computation acts on a world, may fail, and leaves the events it went through, whether it fails or
not. `Sat m P` says that `P` holds of the result and the events of `m` in every world; the rules
below take a computation apart the way it is put together.

`Leads ok m Q w h` is about one world and what happened before: run there, `m` ends in `Q`, if every
event of it is one that `ok` allows. `Acts f Q w` is the same for an action that has no events.
Their rules follow a computation call by call.

`Alike seen o o'` compares two runs by what is seen of their events.
-/

namespace Traced

structure Outcome (ω ε τ α : Type) where
  result : Except ε α
  world : ω
  trace : List τ

end Traced

def Traced (ω ε τ α : Type) := ω → Traced.Outcome ω ε τ α

namespace Traced

variable {ω ε τ α β : Type}

instance : Monad (Traced ω ε τ) where
  pure a := fun w => ⟨.ok a, w, []⟩
  bind m f := fun w =>
    match (m w).result with
    | .ok a =>
      let next := f a (m w).world
      ⟨next.result, next.world, (m w).trace ++ next.trace⟩
    | .error e => ⟨.error e, (m w).world, (m w).trace⟩

/-- Act on the world, without an event. -/
def act (f : StateM ω α) : Traced ω ε τ α := fun w => ⟨.ok (f w).1, (f w).2, []⟩

def emit (e : τ) : Traced ω ε τ Unit := fun w => ⟨.ok (), w, [e]⟩

/-- Go on with a result, or fail with its error. -/
def ofExcept (r : Except ε α) : Traced ω ε τ α := fun w => ⟨r, w, []⟩

def fail (e : ε) : Traced ω ε τ α := ofExcept (.error e)

def Sat (m : Traced ω ε τ α) (P : Except ε α → List τ → Prop) : Prop :=
  ∀ w, P (m w).result (m w).trace

section Rules

variable {P Q : Except ε α → List τ → Prop} {R : Except ε β → List τ → Prop}

theorem Sat.mono {m : Traced ω ε τ α} (h : Sat m P) (hPQ : ∀ r l, P r l → Q r l) : Sat m Q :=
  fun w => hPQ _ _ (h w)

theorem sat_pure {a : α} (h : P (.ok a) []) : Sat (pure a : Traced ω ε τ α) P := fun _ => h

theorem sat_ofExcept {r : Except ε α} (h : P r []) : Sat (ofExcept r : Traced ω ε τ α) P :=
  fun _ => h

/-- What follows a computation sees its events before its own. -/
theorem sat_bind {m : Traced ω ε τ α} {f : α → Traced ω ε τ β} (hm : Sat m P)
    (hok : ∀ a l, P (.ok a) l → Sat (f a) fun r l' => R r (l ++ l'))
    (herror : ∀ e l, P (.error e) l → R (.error e) l) : Sat (m >>= f) R := by
  intro w
  have h := hm w
  simp only [bind]
  rcases hr : (m w).result with e | a
  · rw [hr] at h
    exact herror e _ h
  · rw [hr] at h
    exact hok a _ h _

theorem sat_act_bind {g : StateM ω α} {f : α → Traced ω ε τ β} (h : ∀ a, Sat (f a) R) :
    Sat (act g >>= f) R := fun w => h _ (g w).2

theorem sat_emit_bind {e : τ} {f : Unit → Traced ω ε τ β}
    (h : Sat (f ()) fun r l => R r (e :: l)) : Sat (emit e >>= f) R := h

theorem sat_ofExcept_bind {r : Except ε α} {f : α → Traced ω ε τ β}
    (hok : ∀ a, r = .ok a → Sat (f a) R) (herror : ∀ e, r = .error e → R (.error e) []) :
    Sat (ofExcept r >>= f) R := by
  intro w
  rcases hr : r with e | a
  · exact herror e hr
  · exact hok a hr w

/-- A loop leaves the events of its turns one after the other, up to the one that fails. -/
theorem sat_forM {f : α → Traced ω ε τ Unit} {T : α → List τ → Prop}
    {L : List α → List τ → Prop} (hnil : ∀ as, L as [])
    (hcons : ∀ a as l l', T a l → L as l' → L (a :: as) (l ++ l')) :
    ∀ as : List α, (∀ a ∈ as, Sat (f a) fun _ l => T a l) → Sat (as.forM f) fun _ l => L as l
  | [], _ => sat_pure (hnil [])
  | a :: as, h => by
    refine sat_bind (h a List.mem_cons_self) (fun _ l hl => ?_) fun _ l hl => ?_
    · have hrest := sat_forM hnil hcons as fun b hb => h b (List.mem_cons_of_mem _ hb)
      exact hrest.mono fun _ l' hl' => hcons a as l l' hl hl'
    · rw [← List.append_nil l]
      exact hcons a as l [] hl (hnil as)

end Rules

section Leads

/-- From this world, the action ends in `Q`. -/
def Acts {ω α : Type} (f : StateM ω α) (Q : α → ω → Prop) (w : ω) : Prop := Q (f w).1 (f w).2

theorem acts_bind {f : StateM ω α} {g : α → StateM ω β} {Q : β → ω → Prop} {w : ω}
    (h : Acts f (fun a w' => Acts (g a) Q w') w) : Acts (f >>= g) Q w := h

theorem Acts.mono {f : StateM ω α} {Q Q' : α → ω → Prop} {w : ω} (h : Acts f Q w)
    (hQ : ∀ a w', Q a w' → Q' a w') : Acts f Q' w := hQ _ _ h

variable {ok : τ → Prop} {Q Q' : Except ε α → ω → List τ → Prop}
  {R : Except ε β → ω → List τ → Prop} {w : ω} {h : List τ}

/-- From this world and history, the computation ends in `Q`, if all of its events are `ok`. -/
def Leads (ok : τ → Prop) (m : Traced ω ε τ α) (Q : Except ε α → ω → List τ → Prop) (w : ω)
    (h : List τ) : Prop :=
  (∀ e ∈ (m w).trace, ok e) → Q (m w).result (m w).world (h ++ (m w).trace)

theorem Leads.mono {m : Traced ω ε τ α} (hm : Leads ok m Q w h)
    (hQ : ∀ r w' h', Q r w' h' → Q' r w' h') : Leads ok m Q' w h :=
  fun hok => hQ _ _ _ (hm hok)

theorem Leads.outcome {m : Traced ω ε τ α} (hm : Leads (fun _ => True) m Q w []) :
    Q (m w).result (m w).world (m w).trace := hm fun _ _ => trivial

theorem leads_pure {a : α} (hQ : Q (.ok a) w h) : Leads ok (pure a : Traced ω ε τ α) Q w h := by
  intro _
  show Q _ _ (h ++ [])
  rwa [List.append_nil]

theorem leads_ofExcept {r : Except ε α} (hQ : Q r w h) :
    Leads ok (ofExcept r : Traced ω ε τ α) Q w h := by
  intro _
  show Q _ _ (h ++ [])
  rwa [List.append_nil]

theorem leads_act {f : StateM ω α} (hf : Acts f (fun a w' => Q (.ok a) w' h) w) :
    Leads ok (act f : Traced ω ε τ α) Q w h := by
  intro _
  show Q _ _ (h ++ [])
  rwa [List.append_nil]

theorem leads_emit {Q : Except ε Unit → ω → List τ → Prop} {e : τ}
    (hQ : ok e → Q (.ok ()) w (h ++ [e])) : Leads ok (emit e : Traced ω ε τ Unit) Q w h :=
  fun hok => hQ (hok e (List.mem_singleton_self e))

/-- What follows a computation starts where that one ends. -/
theorem leads_bind {m : Traced ω ε τ α} {f : α → Traced ω ε τ β}
    (hm : Leads ok m (fun r w' h' => match r with
      | .ok a => Leads ok (f a) R w' h'
      | .error e => R (.error e) w' h') w h) : Leads ok (m >>= f) R w h := by
  intro hok
  simp only [bind] at hok ⊢
  rcases hr : (m w).result with e | a
  · rw [hr] at hok
    have hend := hm hok
    rw [hr] at hend
    exact hend
  · rw [hr] at hok
    have hend := hm fun e he => hok e (List.mem_append_left _ he)
    rw [hr] at hend
    rw [← List.append_assoc]
    exact hend fun e he => hok e (List.mem_append_right _ he)

theorem leads_act_bind {g : StateM ω α} {f : α → Traced ω ε τ β}
    (hg : Acts g (fun a w' => Leads ok (f a) R w' h) w) : Leads ok (act g >>= f) R w h :=
  leads_bind (leads_act hg)

theorem leads_get_bind {f : ω → Traced ω ε τ β} (hf : Leads ok (f w) R w h) :
    Leads ok (act get >>= f) R w h :=
  leads_act_bind (g := get) hf

theorem leads_emit_bind {e : τ} {f : Unit → Traced ω ε τ β}
    (hf : ok e → Leads ok (f ()) R w (h ++ [e])) : Leads ok (emit e >>= f) R w h :=
  leads_bind (leads_emit hf)

theorem leads_ofExcept_bind {r : Except ε α} {f : α → Traced ω ε τ β}
    (hok : ∀ a, r = .ok a → Leads ok (f a) R w h) (herror : ∀ e, r = .error e → R (.error e) w h) :
    Leads ok (ofExcept r >>= f) R w h := by
  refine leads_bind (leads_ofExcept ?_)
  rcases r with e | a
  · exact herror e rfl
  · exact hok a rfl

/-- What holds of a computation if it does not fail. -/
def IfOk (P : α → ω → List τ → Prop) : Except ε α → ω → List τ → Prop
  | .ok a => P a
  | .error _ => fun _ _ => True

theorem leads_bind_ifOk {m : Traced ω ε τ α} {f : α → Traced ω ε τ β} {P : β → ω → List τ → Prop}
    (hm : Leads ok m (IfOk fun a w' h' => Leads ok (f a) (IfOk P) w' h') w h) :
    Leads ok (m >>= f) (IfOk P) w h := by
  refine leads_bind (hm.mono fun r w' h' hr => ?_)
  rcases r with e | a
  · trivial
  · exact hr

/-- A loop keeps what each of its turns keeps, up to the turn that fails. -/
theorem leads_foldlM {f : β → α → Traced ω ε τ β} {I : List α → β → ω → List τ → Prop}
    (hstep : ∀ a as b w h, I (a :: as) b w h → Leads ok (f b a) (fun r w' h' => match r with
      | .ok b' => I as b' w' h'
      | .error e => R (.error e) w' h') w h)
    (hdone : ∀ b w h, I [] b w h → R (.ok b) w h) :
    ∀ (as : List α) (b : β) (w : ω) (h : List τ), I as b w h → Leads ok (as.foldlM f b) R w h
  | [], b, w, h, hI => leads_pure (hdone b w h hI)
  | a :: as, b, w, h, hI => by
    rw [List.foldlM_cons]
    refine leads_bind ((hstep a as b w h hI).mono fun r w' h' hr => ?_)
    rcases r with e | b'
    · exact hr
    · exact leads_foldlM hstep hdone as b' w' h' hr

/-- The same for a loop without a result. -/
theorem leads_forM {f : α → Traced ω ε τ Unit} {R : Except ε Unit → ω → List τ → Prop}
    {I : List α → ω → List τ → Prop}
    (hstep : ∀ a as w h, I (a :: as) w h → Leads ok (f a) (fun r w' h' => match r with
      | .ok () => I as w' h'
      | .error e => R (.error e) w' h') w h)
    (hdone : ∀ w h, I [] w h → R (.ok ()) w h) :
    ∀ (as : List α) (w : ω) (h : List τ), I as w h → Leads ok (as.forM f) R w h
  | [], w, h, hI => leads_pure (hdone w h hI)
  | a :: as, w, h, hI => by
    refine leads_bind ((hstep a as w h hI).mono fun r w' h' hr => ?_)
    rcases r with e | u
    · exact hr
    · exact leads_forM hstep hdone as w' h' hr

end Leads

section Runs

variable {m : Traced ω ε τ α} {f : α → Traced ω ε τ β} {w : ω}

/-- What follows a computation that does not fail goes on from its world. -/
theorem bind_of_ok {a : α} (h : (m w).result = .ok a) :
    (m >>= f) w = ⟨(f a (m w).world).result, (f a (m w).world).world,
      (m w).trace ++ (f a (m w).world).trace⟩ := by
  simp only [bind, h]

theorem bind_of_error {e : ε} (h : (m w).result = .error e) :
    (m >>= f) w = ⟨.error e, (m w).world, (m w).trace⟩ := by
  simp only [bind, h]

theorem get_bind {f : ω → Traced ω ε τ β} : (act get >>= f) w = f w w := rfl

variable {δ : Type} (seen : τ → Option δ)

/-- Two outcomes that cannot be told apart by someone who sees what `seen` lets through. -/
structure Alike (o o' : Outcome ω ε τ α) : Prop where
  result : o.result = o'.result
  world : o.world = o'.world
  trace : o.trace.filterMap seen = o'.trace.filterMap seen

variable {seen}

theorem Alike.refl (o : Outcome ω ε τ α) : Alike seen o o := ⟨rfl, rfl, rfl⟩

theorem alike_bind {m' : Traced ω ε τ α} {f' : α → Traced ω ε τ β} (hm : Alike seen (m w) (m' w))
    (hf : ∀ a w, Alike seen (f a w) (f' a w)) : Alike seen ((m >>= f) w) ((m' >>= f') w) := by
  rcases hr : (m w).result with e | a
  · rw [bind_of_error hr, bind_of_error (hm.result.symm.trans hr)]
    exact ⟨rfl, hm.world, hm.trace⟩
  · rw [bind_of_ok hr, bind_of_ok (hm.result.symm.trans hr), ← hm.world]
    obtain ⟨hresult, hworld, htrace⟩ := hf a (m w).world
    refine ⟨hresult, hworld, ?_⟩
    simp only [List.filterMap_append, hm.trace, htrace]

/-- A hidden event is not seen. -/
theorem alike_emit {e e' : τ} (he : seen e = none) (he' : seen e' = none) :
    Alike seen ((emit e : Traced ω ε τ Unit) w) ((emit e' : Traced ω ε τ Unit) w) := by
  refine ⟨rfl, rfl, ?_⟩
  simp [emit, he, he']

end Runs

end Traced
