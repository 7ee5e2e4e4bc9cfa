import Mathlib.Data.List.Basic

/-!
# Encodings that delimit themselves

An encoding delimits itself if what is written for a value can be told from whatever is written
behind it. It need not do so for all values at once: `Delimits R f` asks it of values that `R`
relates. What is as long for all values does, and so does anything behind its own length. Such
encodings can be written one after another, and the list is still read back in one way only
(`Delimits.flatMap_inj`).
-/

namespace Delimiting

variable {α β γ : Type*} {R : α → α → Prop} {f : α → List β}

def Delimits (R : α → α → Prop) (f : α → List β) : Prop :=
  ∀ a b r s, R a b → f a ++ r = f b ++ s → a = b ∧ r = s

theorem delimits_of_length {k : ℕ} (hlen : ∀ a, (f a).length = k)
    (hinj : ∀ a b, R a b → f a = f b → a = b) : Delimits R f := by
  intro a b r s hR h
  obtain ⟨hf, hrest⟩ := List.append_inj h ((hlen a).trans (hlen b).symm)
  exact ⟨hinj a b hR hf, hrest⟩

/-- A list behind its length. -/
def prefixed (len : ℕ → List β) (l : List β) : List β := len l.length ++ l

theorem Delimits.prefixed {P : ℕ → ℕ → Prop} {len : ℕ → List β} (h : Delimits P len) :
    Delimits (fun l l' : List β => P l.length l'.length) (prefixed len) := by
  intro l l' r s hP hlists
  rw [Delimiting.prefixed, Delimiting.prefixed, List.append_assoc, List.append_assoc] at hlists
  obtain ⟨hlen, hrest⟩ := h _ _ _ _ hP hlists
  exact List.append_inj hrest hlen

theorem Delimits.comp (h : Delimits R f) (g : γ → α) (hg : Function.Injective g) :
    Delimits (fun c d => R (g c) (g d)) (f ∘ g) := by
  intro c d r s hR hf
  obtain ⟨heq, hrest⟩ := h _ _ _ _ hR hf
  exact ⟨hg heq, hrest⟩

/-- Fields written one after another are the same fields, with the same boundaries between them. -/
theorem Delimits.flatMap_inj (h : Delimits R f) (hne : ∀ a, f a ≠ []) : ∀ {as bs : List α},
    (∀ p ∈ as.zip bs, R p.1 p.2) → as.flatMap f = bs.flatMap f → as = bs
  | [], [], _, _ => rfl
  | [], b :: _, _, hf => by
    rw [List.flatMap_nil, List.flatMap_cons] at hf
    exact absurd (List.append_eq_nil_iff.1 hf.symm).1 (hne b)
  | a :: _, [], _, hf => by
    rw [List.flatMap_nil, List.flatMap_cons] at hf
    exact absurd (List.append_eq_nil_iff.1 hf).1 (hne a)
  | a :: as, b :: bs, hR, hf => by
    rw [List.flatMap_cons, List.flatMap_cons] at hf
    rw [List.zip_cons_cons] at hR
    obtain ⟨rfl, hrest⟩ := h a b _ _ (hR _ List.mem_cons_self) hf
    rw [h.flatMap_inj hne (fun p hp => hR p (List.mem_cons_of_mem _ hp)) hrest]

theorem forall_zip_of_map_eq {key : α → γ} : ∀ {as bs : List α}, as.map key = bs.map key →
    ∀ p ∈ as.zip bs, key p.1 = key p.2
  | [], _, _, p, hp => by simp at hp
  | _ :: _, [], h, _, _ => by simp at h
  | a :: as, b :: bs, h, p, hp => by
    rw [List.map_cons, List.map_cons, List.cons.injEq] at h
    rw [List.zip_cons_cons, List.mem_cons] at hp
    rcases hp with rfl | hp
    · exact h.1
    · exact forall_zip_of_map_eq h.2 p hp

end Delimiting
