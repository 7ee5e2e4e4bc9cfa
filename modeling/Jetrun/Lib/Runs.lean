import Mathlib.Data.List.Basic
import Mathlib.Data.Option.Basic

/-!
# Runs of a labelled step function

A system is a partial step function: `step s ℓ` is the state the move `ℓ` leads to from `s`, or
`none` where the move is not enabled. Every choice the environment has (who moves, what an
operation returns) is in the label, so a list of labels is an interleaving and `exec` replays it.

An invariant kept by every step that meets `ok` holds at the end of every run whose steps all meet
`ok` (`exec_keeps`), and, cutting the run anywhere, in every state it passes through
(`visited_keeps`). What a step that breaks `ok` brings about for good tells whether one did
(`exec_latches`). Where moves commute, one run that settles stands for all of them (`exec_settles`).
-/

namespace Runs

variable {σ ℓ : Type*} (step : σ → ℓ → Option σ)

/-- The state a list of moves leads to, if every move is enabled when it is made. -/
def exec : σ → List ℓ → Option σ
  | s, [] => some s
  | s, l :: ls => (step s l).bind fun s' => exec s' ls

/-- Every move of the run is made from a state that allows it. -/
def AllSteps (ok : σ → ℓ → Prop) : σ → List ℓ → Prop
  | _, [] => True
  | s, l :: ls => ok s l ∧ ∀ s', step s l = some s' → AllSteps ok s' ls

/-- `s'` is passed through by the run `ls` from `s`. -/
def Visits (s : σ) (ls : List ℓ) (s' : σ) : Prop :=
  ∃ l₁ l₂, ls = l₁ ++ l₂ ∧ exec step s l₁ = some s'

variable {step}

@[simp] theorem exec_nil (s : σ) : exec step s [] = some s := rfl

theorem exec_cons {s s' : σ} {l : ℓ} {ls : List ℓ} (h : step s l = some s') :
    exec step s (l :: ls) = exec step s' ls := by
  simp [exec, h]

theorem exec_append (s : σ) (l₁ l₂ : List ℓ) :
    exec step s (l₁ ++ l₂) = (exec step s l₁).bind fun s' => exec step s' l₂ := by
  induction l₁ generalizing s with
  | nil => rfl
  | cons l l₁ ih =>
    simp only [List.cons_append, exec]
    rcases step s l with _ | s'
    · rfl
    · exact ih s'

theorem exec_trans {s s₁ s₂ : σ} {l₁ l₂ : List ℓ} (h₁ : exec step s l₁ = some s₁)
    (h₂ : exec step s₁ l₂ = some s₂) : exec step s (l₁ ++ l₂) = some s₂ := by
  rw [exec_append, h₁]
  exact h₂

theorem AllSteps.append_left {ok : σ → ℓ → Prop} : ∀ {l₁ l₂ : List ℓ} {s : σ},
    AllSteps step ok s (l₁ ++ l₂) → AllSteps step ok s l₁
  | [], _, _, _ => trivial
  | _ :: _, _, _, h => ⟨h.1, fun s' hs => (h.2 s' hs).append_left⟩

theorem AllSteps.append_right {ok : σ → ℓ → Prop} : ∀ {l₁ l₂ : List ℓ} {s s' : σ},
    AllSteps step ok s (l₁ ++ l₂) → exec step s l₁ = some s' → AllSteps step ok s' l₂
  | [], _, _, _, h, hs => Option.some.inj hs ▸ h
  | l :: _, _, s, s', h, hs => by
    obtain ⟨s₁, hs₁, hrest⟩ := Option.bind_eq_some_iff.1 hs
    exact (h.2 s₁ hs₁).append_right hrest

theorem AllSteps.append {ok : σ → ℓ → Prop} : ∀ {l₁ l₂ : List ℓ} {s : σ},
    AllSteps step ok s l₁ → (∀ s', exec step s l₁ = some s' → AllSteps step ok s' l₂) →
      AllSteps step ok s (l₁ ++ l₂)
  | [], _, s, _, h => h s rfl
  | _ :: _, _, _, h₁, h => ⟨h₁.1, fun _ hs => (h₁.2 _ hs).append fun s' hs' =>
      h s' ((exec_cons hs).trans hs')⟩

/-- What every allowed step keeps holds at the end of every run of allowed steps. -/
theorem exec_keeps {ok : σ → ℓ → Prop} {I : σ → Prop}
    (hstep : ∀ s l s', I s → ok s l → step s l = some s' → I s') :
    ∀ {ls : List ℓ} {s s' : σ}, I s → AllSteps step ok s ls → exec step s ls = some s' → I s'
  | [], s, s', hI, _, h => by
    simp only [exec, Option.some.injEq] at h
    exact h ▸ hI
  | l :: ls, s, s', hI, hok, h => by
    rcases hs : step s l with _ | s₁
    · simp [exec, hs] at h
    · rw [exec_cons hs] at h
      exact exec_keeps hstep (hstep s l s₁ hI hok.1 hs) (hok.2 s₁ hs) h

/-- What every allowed step keeps holds in every state a run of allowed steps passes through. -/
theorem visited_keeps {ok : σ → ℓ → Prop} {I : σ → Prop}
    (hstep : ∀ s l s', I s → ok s l → step s l = some s' → I s') {ls : List ℓ} {s s' : σ}
    (hI : I s) (hok : AllSteps step ok s ls) (h : Visits step s ls s') : I s' := by
  obtain ⟨l₁, l₂, rfl, h⟩ := h
  exact exec_keeps hstep hI hok.append_left h

/-- What every disallowed step brings about and no step undoes holds at the end of the runs that are
not all allowed, if it did not hold before. -/
theorem exec_latches {ok : σ → ℓ → Prop} {P : σ → Prop}
    (hstep : ∀ s l s', step s l = some s' → (P s' ↔ P s ∨ ¬ok s l)) :
    ∀ {ls : List ℓ} {s s' : σ}, exec step s ls = some s' → (P s' ↔ P s ∨ ¬AllSteps step ok s ls)
  | [], s, s', h => by
    simp only [exec, Option.some.injEq] at h
    simp [AllSteps, h]
  | l :: ls, s, s', h => by
    rcases hs : step s l with _ | s₁
    · simp [exec, hs] at h
    · rw [exec_cons hs] at h
      rw [exec_latches hstep h, hstep s l s₁ hs]
      simp only [AllSteps, hs, Option.some.injEq, forall_eq', not_and_or, or_assoc]

theorem allSteps_of_forall {ok : σ → ℓ → Prop} (h : ∀ s l, ok s l) :
    ∀ (ls : List ℓ) (s : σ), AllSteps step ok s ls
  | [], _ => trivial
  | l :: ls, s => ⟨h s l, fun s' _ => allSteps_of_forall h ls s'⟩

/-- What every step keeps holds at the end of every run. -/
theorem exec_invariant {I : σ → Prop} (hstep : ∀ s l s', I s → step s l = some s' → I s')
    {ls : List ℓ} {s s' : σ} (hI : I s) (h : exec step s ls = some s') : I s' := by
  have hall : AllSteps step (fun _ _ => True) s ls := allSteps_of_forall (fun _ _ => trivial) ls s
  exact exec_keeps (fun s l s' hI _ hs => hstep s l s' hI hs) hI hall h

/-- Moves that keep an invariant, and are allowed wherever it holds. -/
theorem allSteps_of_keeps {ok : σ → ℓ → Prop} {I : σ → Prop} {allowed : ℓ → Prop}
    (hok : ∀ s l, I s → allowed l → ok s l)
    (hstep : ∀ s l s', I s → allowed l → step s l = some s' → I s') :
    ∀ {ls : List ℓ} {s : σ}, (∀ l ∈ ls, allowed l) → I s → AllSteps step ok s ls
  | [], _, _, _ => trivial
  | l :: _, s, hls, hI =>
    have hl : allowed l := hls l List.mem_cons_self
    ⟨hok s l hI hl, fun s' hs => allSteps_of_keeps hok hstep
      (fun l' hl' => hls l' (List.mem_cons_of_mem _ hl')) (hstep s l s' hI hl hs)⟩

/-- On a concrete run it can be tried out whether every move is allowed. -/
instance decidableAllSteps (step : σ → ℓ → Option σ) {ok : σ → ℓ → Prop}
    [∀ s l, Decidable (ok s l)] : ∀ (s : σ) (ls : List ℓ), Decidable (AllSteps step ok s ls)
  | _, [] => .isTrue trivial
  | s, l :: ls =>
    match h : step s l with
    | none => decidable_of_iff (ok s l) ⟨fun hok => ⟨hok, fun s' hs => by simp [h] at hs⟩, And.left⟩
    | some s' =>
      have : Decidable (AllSteps step ok s' ls) := decidableAllSteps step s' ls
      decidable_of_iff (ok s l ∧ AllSteps step ok s' ls)
        ⟨fun hok => ⟨hok.1, fun s'' hs => Option.some.inj (h.symm.trans hs) ▸ hok.2⟩,
          fun hall => ⟨hall.1, hall.2 s' h⟩⟩

/-- Moves that take something off a rank are made as often as the rank and the moves that add to it
allow, at most. -/
theorem exec_rank {I : σ → Prop} (rank : σ → ℕ) (down up : ℓ → Bool)
    (hstep : ∀ s l s', I s → step s l = some s' →
      I s' ∧ rank s' + (if down l then 1 else 0) ≤ rank s + if up l then 1 else 0) :
    ∀ {ls : List ℓ} {s s' : σ}, I s → exec step s ls = some s' →
      rank s' + ls.countP down ≤ rank s + ls.countP up
  | [], s, s', _, h => by
    rw [exec_nil, Option.some.injEq] at h
    simp [h]
  | l :: ls, s, s', hI, h => by
    obtain ⟨s₁, hs₁, hrest⟩ := Option.bind_eq_some_iff.1 h
    obtain ⟨hI₁, hrank⟩ := hstep s l s₁ hI hs₁
    have ih := exec_rank rank down up hstep hI₁ hrest
    rw [List.countP_cons, List.countP_cons]
    omega

section Commuting

/-- Moves that are enabled together lead to one state in either order. -/
def Commuting (step : σ → ℓ → Option σ) : Prop :=
  ∀ {s s₁ s₂ : σ} {l₁ l₂ : ℓ}, l₁ ≠ l₂ → step s l₁ = some s₁ → step s l₂ = some s₂ →
    ∃ s', step s₁ l₂ = some s' ∧ step s₂ l₁ = some s'

/-- No move is enabled. -/
def Settled (step : σ → ℓ → Option σ) (s : σ) : Prop := ∀ l, step s l = none

variable [DecidableEq ℓ]

/-- Any enabled move is one of those that a run to a settled state makes, sooner or later. -/
theorem exec_pull (hstep : Commuting step) {t : σ} (ht : Settled step t) :
    ∀ {ls : List ℓ} {s s' : σ} {l : ℓ}, exec step s ls = some t → step s l = some s' →
      ∃ rest, exec step s' rest = some t ∧ rest.length + 1 = ls.length
  | [], s, s', l, h, hl => by
    rw [exec_nil, Option.some.injEq] at h
    rw [h, ht l] at hl
    cases hl
  | k :: ls, s, s', l, h, hl => by
    obtain ⟨s₁, hk, hrest⟩ := Option.bind_eq_some_iff.1 h
    by_cases hkl : k = l
    · rw [hkl, hl, Option.some.injEq] at hk
      exact ⟨ls, hk ▸ hrest, rfl⟩
    · obtain ⟨s₂, hl₁, hk₁⟩ := hstep hkl hk hl
      obtain ⟨rest, hexec, hlen⟩ := exec_pull hstep ht hrest hl₁
      exact ⟨k :: rest, (exec_cons hk₁).trans hexec, by simp [hlen]⟩

/-- If one run ends in a settled state, then every run can be completed to one that ends there, and
all of these take the same number of moves. -/
theorem exec_settles (hstep : Commuting step) {t : σ} (ht : Settled step t) :
    ∀ {ms ls : List ℓ} {s s' : σ}, exec step s ls = some t → exec step s ms = some s' →
      ∃ rest, exec step s' rest = some t ∧ ms.length + rest.length = ls.length
  | [], ls, s, s', h, hm => by
    rw [exec_nil, Option.some.injEq] at hm
    exact ⟨ls, hm ▸ h, by simp⟩
  | m :: ms, ls, s, s', h, hm => by
    obtain ⟨s₁, hs₁, hrest⟩ := Option.bind_eq_some_iff.1 hm
    obtain ⟨ls₁, h₁, hlen₁⟩ := exec_pull hstep ht h hs₁
    obtain ⟨rest, hexec, hlen⟩ := exec_settles hstep ht h₁ hrest
    refine ⟨rest, hexec, ?_⟩
    simp only [List.length_cons]
    omega

end Commuting

section Histories

variable {α : Type*}

/-- `P` holds of every entry of a history and the entries before it. -/
def Throughout (P : List α → α → Prop) (l : List α) : Prop :=
  ∀ before e after, l = before ++ e :: after → P before e

theorem throughout_nil (P : List α → α → Prop) : Throughout P [] := by
  intro before e after h
  simp at h

theorem throughout_append {P : List α → α → Prop} {l₁ l₂ : List α} :
    Throughout P (l₁ ++ l₂) ↔ Throughout P l₁ ∧ Throughout (fun before => P (l₁ ++ before)) l₂ := by
  constructor
  · intro h
    refine ⟨fun before e after hl => h before e (after ++ l₂) (by simp [hl]),
      fun before e after hl => h (l₁ ++ before) e after (by simp [hl])⟩
  · rintro ⟨h₁, h₂⟩ before e after hl
    rcases List.append_eq_append_iff.1 hl with ⟨rest, rfl, hrest⟩ | ⟨rest, hrest, hl₂⟩
    · exact h₂ rest e after hrest
    · rcases rest with _ | ⟨d, rest⟩
      · rw [List.append_nil] at hrest
        have := h₂ [] e after hl₂.symm
        rwa [hrest, List.append_nil] at this
      · rw [List.cons_append, List.cons.injEq] at hl₂
        obtain ⟨rfl, -⟩ := hl₂
        exact h₁ before e rest hrest

theorem throughout_singleton {P : List α → α → Prop} {e : α} : Throughout P [e] ↔ P [] e := by
  constructor
  · exact fun h => h [] e [] rfl
  · intro h before d after hl
    rcases before with _ | ⟨_, before⟩
    · rw [List.nil_append, List.cons.injEq] at hl
      exact hl.1 ▸ h
    · simp at hl

theorem throughout_concat {P : List α → α → Prop} {l : List α} {e : α} :
    Throughout P (l ++ [e]) ↔ Throughout P l ∧ P l e := by
  rw [throughout_append, throughout_singleton, List.append_nil]

theorem Throughout.mono {P Q : List α → α → Prop} {l : List α} (h : Throughout P l)
    (hPQ : ∀ before, ∀ e ∈ l, P before e → Q before e) : Throughout Q l := by
  intro before e after hl
  exact hPQ before e (by simp [hl]) (h before e after hl)

end Histories

end Runs
