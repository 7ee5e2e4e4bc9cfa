import Jetrun.Lib.Runs
import Mathlib.Data.List.Nodup

/-!
# Building a tree, one event at a time

The events of a program that builds a tree of files, each with the path it is about. What a
sequence of them builds is confined to its roots if every path lies below a root, in directories
that the sequence opened before. Sequences for roots that lie apart are put one after the other
(`Builds.append`), and a directory is opened before what stands in it (`Builds.open`); then nothing
reaches a path through anything but those directories (`Builds.undiverted`).
-/

namespace Building

variable {κ ε : Type*}

/-- What an event does to its path: it creates it, as an open directory or as a file that is filled
or as something else, or it only touches it. -/
structure Kinds (κ ε : Type*) where
  path : ε → List κ
  creates : ε → Bool
  opens : ε → Prop
  fills : ε → Prop
  opens_creates : ∀ e, opens e → creates e
  fills_creates : ∀ e, fills e → creates e

/-- The events create what lies below the roots, each path once and in directories opened before,
and touch what they filled. -/
structure Builds (k : Kinds κ ε) (valid : κ → Prop) (roots : List (List κ)) (l : List ε) :
    Prop where
  below : ∀ e ∈ l, ∃ r ∈ roots, ∃ ns, k.path e = r ++ ns ∧ ∀ n ∈ ns, valid n
  parents : Runs.Throughout (fun before e => ∀ r ∈ roots, ∀ p, r <+: p → p <+: k.path e →
    p ≠ k.path e → ∃ d ∈ before, k.opens d ∧ k.path d = p) l
  once : ((l.filter k.creates).map k.path).Nodup
  owned : Runs.Throughout (fun before e => k.creates e = false →
    ∃ d ∈ before, k.fills d ∧ k.path d = k.path e) l

/-- Neither path leads to the other. -/
def Apart (p q : List κ) : Prop := ¬p <+: q ∧ ¬q <+: p

theorem Apart.not_both {p q r : List κ} (h : Apart p q) (hp : p <+: r) : ¬q <+: r := by
  intro hq
  rcases List.prefix_or_prefix_of_prefix hp hq with hpq | hqp
  · exact h.1 hpq
  · exact h.2 hqp

theorem apart_siblings (root : List κ) {n m : κ} (h : n ≠ m) :
    Apart (root ++ [n]) (root ++ [m]) := by
  constructor
  · intro hp
    rw [List.prefix_append_right_inj] at hp
    simp [h] at hp
  · intro hp
    rw [List.prefix_append_right_inj] at hp
    simp [h.symm] at hp

variable {k : Kinds κ ε} {valid : κ → Prop}

theorem Builds.root {roots : List (List κ)} {l : List ε} (h : Builds k valid roots l) {e : ε}
    (he : e ∈ l) : ∃ r ∈ roots, r <+: k.path e := by
  obtain ⟨r, hr, ns, hns, -⟩ := h.below e he
  exact ⟨r, hr, ns, hns.symm⟩

theorem builds_nil (roots : List (List κ)) : Builds k valid roots [] where
  below := by simp
  parents := Runs.throughout_nil _
  once := List.nodup_nil
  owned := Runs.throughout_nil _

/-- A directory that is opened, or something that nothing is built in. -/
theorem builds_one {root : List κ} {e : ε} (hpath : k.path e = root) (hcreates : k.creates e) :
    Builds k valid [root] [e] where
  below d hd := ⟨root, by simp, [], by simp [List.mem_singleton.1 hd, hpath], by simp⟩
  parents := by
    rw [Runs.throughout_singleton]
    intro r hr p hrp hpe hne
    obtain rfl := List.mem_singleton.1 hr
    rw [hpath] at hpe hne
    exact absurd (hpe.eq_of_length (Nat.le_antisymm hpe.length_le hrp.length_le)) hne
  once := by simp [hcreates]
  owned := by
    rw [Runs.throughout_singleton]
    intro htouch
    rw [hcreates] at htouch
    cases htouch

/-- A file that is filled may be touched. -/
theorem Builds.touch {root : List κ} {e f : ε} (h : Builds k valid [root] [e])
    (hfills : k.fills e) (hpath : k.path e = root) (htouch : k.creates f = false)
    (hsame : k.path f = root) : Builds k valid [root] [e, f] where
  below d hd := by
    refine ⟨root, by simp, [], ?_, by simp⟩
    rcases List.mem_cons.1 hd with rfl | hd
    · simp [hpath]
    · simp [List.mem_singleton.1 hd, hsame]
  parents := by
    rw [show [e, f] = [e] ++ [f] from rfl, Runs.throughout_concat]
    refine ⟨h.parents, ?_⟩
    intro r hr p hrp hpf hne
    obtain rfl := List.mem_singleton.1 hr
    rw [hsame] at hpf hne
    exact absurd (hpf.eq_of_length (Nat.le_antisymm hpf.length_le hrp.length_le)) hne
  once := by
    simp [k.fills_creates e hfills, htouch]
  owned := by
    rw [show [e, f] = [e] ++ [f] from rfl, Runs.throughout_concat]
    exact ⟨h.owned, fun _ => ⟨e, by simp, hfills, hpath.trans hsame.symm⟩⟩

/-- What is built below roots that lie apart is built one after the other. -/
theorem Builds.append {A B : List (List κ)} {l₁ l₂ : List ε} (h₁ : Builds k valid A l₁)
    (h₂ : Builds k valid B l₂) (hapart : ∀ a ∈ A, ∀ b ∈ B, Apart a b) :
    Builds k valid (A ++ B) (l₁ ++ l₂) where
  below e he := by
    rcases List.mem_append.1 he with he | he
    · obtain ⟨r, hr, hns⟩ := h₁.below e he
      exact ⟨r, List.mem_append_left _ hr, hns⟩
    · obtain ⟨r, hr, hns⟩ := h₂.below e he
      exact ⟨r, List.mem_append_right _ hr, hns⟩
  parents := by
    refine Runs.throughout_append.2 ⟨h₁.parents.mono fun before e he hold r hr p hrp hpe => ?_,
      h₂.parents.mono fun before e he hold r hr p hrp hpe hne => ?_⟩
    · obtain ⟨a, ha, hae⟩ := h₁.root he
      rcases List.mem_append.1 hr with hr | hr
      · exact hold r hr p hrp hpe
      · exact absurd (hrp.trans hpe) ((hapart a ha r hr).not_both hae)
    · obtain ⟨b, hb, hbe⟩ := h₂.root he
      rcases List.mem_append.1 hr with hr | hr
      · exact absurd hbe ((hapart r hr b hb).not_both (hrp.trans hpe))
      · obtain ⟨d, hd, hopens⟩ := hold r hr p hrp hpe hne
        exact ⟨d, List.mem_append_right _ hd, hopens⟩
  once := by
    rw [List.filter_append, List.map_append]
    refine h₁.once.append h₂.once fun p hp₁ hp₂ => ?_
    obtain ⟨e, he, rfl⟩ := List.mem_map.1 hp₁
    obtain ⟨f, hf, hsame⟩ := List.mem_map.1 hp₂
    obtain ⟨a, ha, hae⟩ := h₁.root (List.mem_filter.1 he).1
    obtain ⟨b, hb, hbf⟩ := h₂.root (List.mem_filter.1 hf).1
    exact (hapart a ha b hb).not_both hae (hsame ▸ hbf)
  owned := by
    refine Runs.throughout_append.2 ⟨h₁.owned, h₂.owned.mono fun before e _ hold htouch => ?_⟩
    obtain ⟨d, hd, hfills⟩ := hold htouch
    exact ⟨d, List.mem_append_right _ hd, hfills⟩

/-- A directory is opened before what stands in it is built. -/
theorem Builds.open {root : List κ} {names : List κ} {l : List ε} {e : ε}
    (h : Builds k valid (names.map fun n => root ++ [n]) l) (hvalid : ∀ n ∈ names, valid n)
    (hopens : k.opens e) (hpath : k.path e = root) : Builds k valid [root] (e :: l) := by
  have hone : Builds k valid [root] [e] := builds_one hpath (k.opens_creates e hopens)
  have hbelow : ∀ f ∈ l, ∃ n ∈ names, ∃ ns, k.path f = root ++ [n] ++ ns ∧ ∀ m ∈ ns, valid m := by
    intro f hf
    obtain ⟨r, hr, ns, hns⟩ := h.below f hf
    obtain ⟨n, hn, rfl⟩ := List.mem_map.1 hr
    exact ⟨n, hn, ns, hns⟩
  refine ⟨fun f hf => ?_, ?_, ?_, ?_⟩
  · rcases List.mem_cons.1 hf with rfl | hf
    · exact hone.below f (by simp)
    · obtain ⟨n, hn, ns, hns, hall⟩ := hbelow f hf
      refine ⟨root, by simp, n :: ns, by simp [hns], ?_⟩
      rintro m (_ | ⟨_, hm⟩)
      · exact hvalid n hn
      · exact hall m hm
  · rw [show e :: l = [e] ++ l from rfl, Runs.throughout_append]
    refine ⟨hone.parents, h.parents.mono ?_⟩
    rintro before f hf hold r hr p ⟨q, rfl⟩ hpf hne
    obtain rfl := List.mem_singleton.1 hr
    rcases q with _ | ⟨m, q⟩
    · exact ⟨e, by simp, hopens, by simp [hpath]⟩
    -- a deeper directory lies below the same name as the path
    obtain ⟨n, hn, ns, hns, -⟩ := hbelow f hf
    have hm : m = n := by
      rw [hns, List.append_assoc, List.prefix_append_right_inj] at hpf
      simpa using (List.cons_prefix_cons.1 hpf).1
    subst hm
    obtain ⟨d, hd, hd'⟩ := hold (r ++ [m]) (List.mem_map.2 ⟨m, hn, rfl⟩) (r ++ m :: q)
      ⟨q, by simp⟩ hpf hne
    exact ⟨d, List.mem_append_right _ hd, hd'⟩
  · rw [List.filter_cons, if_pos (k.opens_creates e hopens), List.map_cons, List.nodup_cons]
    refine ⟨fun hmem => ?_, h.once⟩
    obtain ⟨f, hf, hsame⟩ := List.mem_map.1 hmem
    obtain ⟨n, -, ns, hns, -⟩ := hbelow f (List.mem_filter.1 hf).1
    rw [hns, hpath] at hsame
    have hlen := congrArg List.length hsame
    simp at hlen
  · rw [show e :: l = [e] ++ l from rfl, Runs.throughout_append]
    refine ⟨hone.owned, h.owned.mono ?_⟩
    intro before f _ hold htouch
    obtain ⟨d, hd, hfills⟩ := hold htouch
    exact ⟨d, List.mem_append_right _ hd, hfills⟩

/-- A path is created by one event. -/
theorem Builds.created_once {roots : List (List κ)} {l : List ε} (h : Builds k valid roots l)
    {d s : ε} (hd : d ∈ l) (hs : s ∈ l) (hcd : k.creates d) (hcs : k.creates s)
    (hsame : k.path d = k.path s) : d = s :=
  List.inj_on_of_nodup_map h.once (List.mem_filter.2 ⟨hd, hcd⟩) (List.mem_filter.2 ⟨hs, hcs⟩) hsame

/-- No path leads through something that was created but not opened, or to it, if not filled. -/
theorem Builds.undiverted {root : List κ} {l : List ε} (h : Builds k valid [root] l) :
    Runs.Throughout (fun before e => ∀ s ∈ before, k.creates s → ¬k.opens s → ¬k.fills s →
      ¬k.path s <+: k.path e) l := by
  rintro before e after rfl s hs hcs hopens hfills hle
  have hsl : s ∈ before ++ e :: after := by simp [hs]
  have hbefore : ∀ d ∈ before, d ∈ before ++ e :: after := fun d hd => by simp [hd]
  obtain ⟨r, hr, hrs⟩ := h.root hsl
  by_cases hsame : k.path s = k.path e
  · rcases hce : k.creates e with _ | _
    · -- what is touched was filled
      obtain ⟨d, hd, hdf, hde⟩ := h.owned before e after rfl hce
      have hds := h.created_once (hbefore d hd) hsl (k.fills_creates d hdf) hcs
        (hde.trans hsame.symm)
      exact hfills (hds ▸ hdf)
    · have honce := h.once
      rw [List.filter_append, List.map_append, List.filter_cons, if_pos hce, List.map_cons,
        List.nodup_append] at honce
      exact honce.2.2 _ (List.mem_map.2 ⟨s, List.mem_filter.2 ⟨hs, hcs⟩, rfl⟩) _
        List.mem_cons_self hsame
  · obtain ⟨d, hd, hdo, hds⟩ := h.parents before e after rfl r hr _ hrs hle hsame
    have heq := h.created_once (hbefore d hd) hsl (k.opens_creates d hdo) hcs hds
    exact hopens (heq ▸ hdo)

end Building
