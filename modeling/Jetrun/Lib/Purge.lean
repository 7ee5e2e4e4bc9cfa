import Jetrun.Lib.Runs
import Mathlib.Data.List.Basic

/-!
# Inputs without influence

A machine takes its inputs one after the other, answers each and moves on. Where one kind of input,
the `hidden` ones, never moves it, such inputs can be put into a history or taken out of it: the
machine ends in the same state, and gives every other input the same answer (`run_purge`).

Inputs that do move it may be taken out as well, if a relation between the machine with them and the
machine without them survives every step (`exec_filter`).
-/

namespace Purge

variable {σ ι ο : Type*} (step : σ → ι → ο × σ)

/-- The inputs of a history with their answers, and the state it ends in. -/
def run : σ → List ι → List (ι × ο) × σ
  | s, [] => ([], s)
  | s, i :: is =>
    let (answer, s) := step s i
    let (answers, s) := run s is
    ((i, answer) :: answers, s)

/-- The history without its hidden inputs. -/
def purge (hidden : ι → Bool) (is : List ι) : List ι := is.filter fun i => !hidden i

variable {step} {hidden : ι → Bool} {I : σ → Prop}

@[simp] theorem length_run (s : σ) : ∀ is : List ι, (run step s is).1.length = is.length
  | [] => rfl
  | i :: is => by simp [run, length_run (step s i).2 is]

theorem run_append (s : σ) : ∀ is js : List ι, run step s (is ++ js) =
    ((run step s is).1 ++ (run step (run step s is).2 js).1, (run step (run step s is).2 js).2)
  | [], _ => rfl
  | i :: is, js => by simp [run, run_append (step s i).2 is js]

/-- Hidden inputs leave no trace but their own answers. -/
theorem run_purge (hI : ∀ s i, I s → I (step s i).2)
    (hhidden : ∀ s i, I s → hidden i → (step s i).2 = s) : ∀ {s : σ} (is : List ι), I s →
      run step s (purge hidden is)
        = ((run step s is).1.filter (fun e => !hidden e.1), (run step s is).2)
  | s, [], _ => rfl
  | s, i :: is, hs => by
    have ih := run_purge hI hhidden is (hI s i hs)
    unfold purge at ih ⊢
    by_cases hi : hidden i
    · rw [hhidden s i hs hi] at ih
      rw [List.filter_cons_of_neg (by simp [hi]), ih]
      simp [run, hi, hhidden s i hs hi]
    · rw [List.filter_cons_of_pos (by simp [hi])]
      simp [run, hi, ih]

section Unwinding

variable {ℓ : Type*} {step : σ → ℓ → Option σ} {ok : σ → ℓ → Prop}

/-- A run, and the run of the moves that are kept. -/
theorem exec_filter (keep : ℓ → Bool) (R : σ → σ → Prop)
    (hkeep : ∀ {s t l s'}, R s t → ok s l → keep l → step s l = some s' →
      ∃ t', step t l = some t' ∧ R s' t')
    (hdrop : ∀ {s t l s'}, R s t → ok s l → ¬keep l → step s l = some s' → R s' t) :
    ∀ {ls : List ℓ} {s t s' : σ}, R s t → Runs.AllSteps step ok s ls →
      Runs.exec step s ls = some s' → ∃ t', Runs.exec step t (ls.filter keep) = some t' ∧ R s' t'
  | [], s, t, s', hR, _, h => ⟨t, rfl, Option.some.inj h ▸ hR⟩
  | l :: ls, s, t, s', hR, hok, h => by
    obtain ⟨s₁, hs, h⟩ := Option.bind_eq_some_iff.1 h
    by_cases hl : keep l
    · obtain ⟨t₁, ht, hR₁⟩ := hkeep hR hok.1 hl hs
      rw [List.filter_cons_of_pos hl, Runs.exec_cons ht]
      exact exec_filter keep R hkeep hdrop hR₁ (hok.2 s₁ hs) h
    · rw [List.filter_cons_of_neg hl]
      exact exec_filter keep R hkeep hdrop (hdrop hR hok.1 hl hs) (hok.2 s₁ hs) h

end Unwinding

end Purge
