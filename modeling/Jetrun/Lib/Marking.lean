import Mathlib.Data.Finset.Basic
import Mathlib.Algebra.Order.BigOperators.Group.List
import Mathlib.Data.List.Infix
import Mathlib.Tactic.Linarith

/-!
# Marking a graph of references

Some objects can be opened, and an opened object refers to others in two ways: as leaves, which
are to be kept, and as nodes, which are to be opened in their turn. `Reach` is the closure of a
set of roots under both.

`markLoop` is the depth-first loop that keeps one set for two purposes: it holds what is to be kept,
and it tells which objects the loop has dealt with. It ends (`markLoop_done`), looks up no object
twice (`opened_nodup`) and keeps only what the roots reach (`markLoop_sound`). An object that a leaf
reference put in the set before its own turn came is never opened. `walk` is the same search with
node references only and a set of visited objects of its own; where no leaf reference runs ahead of
it (`LeavesBehind`), the two agree and the loop keeps everything the roots reach
(`markLoop_complete`). Where nodes are of a kind that leaf references never lead to, no search is
needed to tell what the loop keeps (`markLoop_closed`).
-/

namespace Marking

variable {α : Type*}

/-- What an object refers to, once opened: leaves, and nodes in the order they are pushed. -/
abbrev Refs (α : Type*) := α → Option (List α × List α)

namespace Refs

variable (refs : Refs α)

def leaves (d : α) : List α := ((refs d).map Prod.fst).getD []

def nodes (d : α) : List α := ((refs d).map Prod.snd).getD []

/-- Everything the roots refer to, directly or through objects that can be opened. -/
inductive Reach (roots : List α) : α → Prop
  | root {d} : d ∈ roots → Reach roots d
  | leaf {d x} : Reach roots d → x ∈ refs.leaves d → Reach roots x
  | node {d x} : Reach roots d → x ∈ refs.nodes d → Reach roots x

variable {refs} in
theorem Reach.least {roots : List α} {K : α → Prop} (hr : ∀ d ∈ roots, K d)
    (hl : ∀ d, K d → ∀ x ∈ refs.leaves d, K x) (hn : ∀ d, K d → ∀ x ∈ refs.nodes d, K x) {d : α}
    (h : refs.Reach roots d) : K d := by
  induction h with
  | root h => exact hr _ h
  | leaf _ hx ih => exact hl _ ih _ hx
  | node _ hx ih => exact hn _ ih _ hx

theorem leaves_of_none {d : α} (h : refs d = none) : refs.leaves d = [] := by simp [leaves, h]

theorem nodes_of_none {d : α} (h : refs d = none) : refs.nodes d = [] := by simp [nodes, h]

theorem leaves_of_some {d : α} {ls ns : List α} (h : refs d = some (ls, ns)) :
    refs.leaves d = ls := by simp [leaves, h]

theorem nodes_of_some {d : α} {ls ns : List α} (h : refs d = some (ls, ns)) :
    refs.nodes d = ns := by simp [nodes, h]

end Refs

section Loop

variable (refs : Refs α)

/-- The loop's two collections: what it has marked, and the stack, top first. -/
structure State (α : Type*) where
  live : Finset α
  queue : List α

variable [DecidableEq α]

/-- One turn of the loop. The leaves go into the set first; a node already in it is not pushed. -/
def markStep (s : State α) : State α :=
  match s.queue with
  | [] => s
  | d :: queue =>
    if d ∈ s.live then { s with queue }
    else match refs d with
      | none => { live := insert d s.live, queue }
      | some (ls, ns) =>
        let live := ls.foldl (fun live b => insert b live) (insert d s.live)
        { live, queue := (ns.filter (· ∉ live)).reverse ++ queue }

/-- The loop, for at most `n` turns. -/
def markLoop : ℕ → State α → State α
  | 0, s => s
  | n + 1, s => if s.queue = [] then s else markLoop n (markStep refs s)

@[simp] theorem markLoop_nil (live : Finset α) : ∀ n, markLoop refs n ⟨live, []⟩ = ⟨live, []⟩
  | 0 => rfl
  | _ + 1 => rfl

theorem mem_foldl_insert {ls : List α} {live : Finset α} {x : α} :
    x ∈ ls.foldl (fun live b => insert b live) live ↔ x ∈ ls ∨ x ∈ live := by
  induction ls generalizing live with
  | nil => simp
  | cons b ls ih => simp only [List.foldl_cons, ih, Finset.mem_insert, List.mem_cons]; tauto

theorem markStep_skip {live : Finset α} {queue : List α} {d : α} (h : d ∈ live) :
    markStep refs ⟨live, d :: queue⟩ = ⟨live, queue⟩ := by simp [markStep, h]

/-- A turn looks at one object only. -/
theorem markStep_congr {refs refs' : Refs α} {live : Finset α} {queue : List α} {d : α}
    (h : refs d = refs' d) :
    markStep refs ⟨live, d :: queue⟩ = markStep refs' ⟨live, d :: queue⟩ := by
  unfold markStep
  simp only [h]

/-- What a turn that is not skipped does: it marks the object and its leaves, and pushes those of
its nodes that are not marked by then. -/
theorem markStep_open {live : Finset α} (queue : List α) {d : α} (h : d ∉ live) :
    (∀ x, x ∈ (markStep refs ⟨live, d :: queue⟩).live ↔ x = d ∨ x ∈ refs.leaves d ∨ x ∈ live)
      ∧ (markStep refs ⟨live, d :: queue⟩).queue
        = ((refs.nodes d).filter (· ∉ (markStep refs ⟨live, d :: queue⟩).live)).reverse ++ queue := by
  rcases hr : refs d with _ | ⟨ls, ns⟩
  · simp [markStep, h, hr, refs.leaves_of_none hr, refs.nodes_of_none hr]
  · refine ⟨fun x => ?_, ?_⟩
    · simp only [markStep, h, hr, if_false, mem_foldl_insert, Finset.mem_insert,
        refs.leaves_of_some hr]
      tauto
    · simp only [markStep, h, hr, if_false, refs.nodes_of_some hr]

/-- Everything marked or waiting is reachable. -/
def Sound (roots : List α) (s : State α) : Prop :=
  (∀ x ∈ s.live, refs.Reach roots x) ∧ ∀ x ∈ s.queue, refs.Reach roots x

variable {refs}

theorem markStep_sound {roots : List α} {s : State α} (h : Sound refs roots s) :
    Sound refs roots (markStep refs s) := by
  obtain ⟨live, queue⟩ := s
  obtain ⟨hl, hq⟩ := h
  rcases queue with _ | ⟨d, queue⟩
  · exact ⟨hl, hq⟩
  have hd : refs.Reach roots d := hq d List.mem_cons_self
  by_cases hmem : d ∈ live
  · rw [markStep_skip refs hmem]
    exact ⟨hl, fun x hx => hq x (List.mem_cons_of_mem _ hx)⟩
  · obtain ⟨h1, h2⟩ := markStep_open refs queue hmem
    refine ⟨fun x hx => ?_, fun x hx => ?_⟩
    · rcases (h1 x).1 hx with rfl | hx | hx
      · exact hd
      · exact .leaf hd hx
      · exact hl x hx
    · rw [h2] at hx
      rcases List.mem_append.1 hx with hx | hx
      · exact .node hd (List.mem_of_mem_filter (List.mem_reverse.1 hx))
      · exact hq x (List.mem_cons_of_mem _ hx)

/-- The loop marks only what the roots reach. -/
theorem markLoop_sound {roots : List α} :
    ∀ (n : ℕ) {s : State α}, Sound refs roots s → Sound refs roots (markLoop refs n s)
  | 0, _, h => h
  | n + 1, s, h => by
    simp only [markLoop]
    split_ifs
    · exact h
    · exact markLoop_sound n (markStep_sound h)

omit [DecidableEq α] in
theorem sound_init (roots : List α) : Sound refs roots ⟨∅, roots.reverse⟩ :=
  ⟨by simp, fun _ hx => .root (List.mem_reverse.1 hx)⟩

end Loop

section Cost

variable (next : α → List α)

/-- The references a search from `stack` can still push, if `seen` tells what is dealt with and
only the objects in `dom` have any. -/
def cost (dom : List α) (seen : α → Prop) [DecidablePred seen] (stack : List α) : ℕ :=
  stack.length + ((dom.filter fun d => ¬ seen d).map fun d => (next d).length).sum

theorem sum_filter_mono (dom : List α) {seen seen' : α → Prop} [DecidablePred seen]
    [DecidablePred seen'] (h : ∀ x, seen x → seen' x) (f : α → ℕ) :
    ((dom.filter fun d => ¬ seen' d).map f).sum ≤ ((dom.filter fun d => ¬ seen d).map f).sum := by
  refine List.Sublist.sum_le_sum (List.Sublist.map f ?_) (by simp)
  exact List.monotone_filter_right _ fun x hx => by
    simp only [decide_eq_true_eq] at hx ⊢
    exact fun hs => hx (h x hs)

theorem sum_filter_new {dom : List α} {seen seen' : α → Prop} [DecidablePred seen]
    [DecidablePred seen'] (h : ∀ x, seen x → seen' x) (f : α → ℕ) {d : α} (hd : d ∈ dom)
    (hs : ¬ seen d) (hs' : seen' d) :
    ((dom.filter fun x => ¬ seen' x).map f).sum + f d
      ≤ ((dom.filter fun x => ¬ seen x).map f).sum := by
  induction dom with
  | nil => simp at hd
  | cons a dom ih =>
    have hm := sum_filter_mono dom h f
    rcases List.mem_cons.1 hd with rfl | hd
    · simp only [List.filter_cons, hs, hs', not_true, not_false_eq_true, decide_true, decide_false,
        if_true, Bool.false_eq_true, if_false, List.map_cons, List.sum_cons]
      omega
    · have ih := ih hd
      by_cases ha : seen a
      · simpa [List.filter_cons, ha, h a ha] using ih
      · by_cases ha' : seen' a
        · simp only [List.filter_cons, ha, ha', not_true, not_false_eq_true, decide_true,
            decide_false, if_true, Bool.false_eq_true, if_false, List.map_cons, List.sum_cons]
          omega
        · simp only [List.filter_cons, ha, ha', not_false_eq_true, decide_true, if_true,
            List.map_cons, List.sum_cons]
          omega

/-- Dealing with the top of the stack pays for what it pushes. -/
theorem cost_open {dom : List α} (hdom : ∀ d, next d ≠ [] → d ∈ dom) (seen seen' : α → Prop)
    [DecidablePred seen] [DecidablePred seen'] (h : ∀ x, seen x → seen' x) {d : α}
    (stack : List α) {pushed : List α} (hs : ¬ seen d) (hs' : seen' d)
    (hp : pushed.length ≤ (next d).length) :
    cost next dom seen' (pushed ++ stack) + 1 ≤ cost next dom seen (d :: stack) := by
  simp only [cost, List.length_append, List.length_cons]
  by_cases hd : next d = []
  · have := sum_filter_mono dom h fun d => (next d).length
    simp only [hd, List.length_nil, Nat.le_zero, List.length_eq_zero_iff] at hp
    simp only [hp, List.length_nil]
    omega
  · have := sum_filter_new h (fun d => (next d).length) (hdom d hd) hs hs'
    omega

theorem cost_skip (dom : List α) (seen : α → Prop) [DecidablePred seen] (d : α)
    (stack : List α) : cost next dom seen stack + 1 = cost next dom seen (d :: stack) := by
  simp only [cost, List.length_cons]
  omega

theorem cost_eq_zero {dom : List α} {seen : α → Prop} [DecidablePred seen] {stack : List α}
    (h : cost next dom seen stack = 0) : stack = [] := by
  simp only [cost] at h
  exact List.length_eq_zero_iff.1 (by omega)

end Cost

section Done

variable [DecidableEq α] (refs : Refs α)

/-- Enough turns for a loop that starts from `roots`. -/
def turns (dom roots : List α) : ℕ := cost refs.nodes dom (fun _ => False) roots

variable {refs}

theorem markStep_cost {dom : List α} (hdom : ∀ d, refs.nodes d ≠ [] → d ∈ dom) {s : State α}
    (h : s.queue ≠ []) :
    cost refs.nodes dom (· ∈ (markStep refs s).live) (markStep refs s).queue + 1
      ≤ cost refs.nodes dom (· ∈ s.live) s.queue := by
  obtain ⟨live, queue⟩ := s
  rcases queue with _ | ⟨d, queue⟩
  · exact absurd rfl h
  by_cases hmem : d ∈ live
  · rw [markStep_skip refs hmem]
    exact (cost_skip refs.nodes _ _ _ _).le
  · obtain ⟨h1, h2⟩ := markStep_open refs queue hmem
    rw [h2]
    refine cost_open refs.nodes hdom _ _ (fun x hx => (h1 x).2 (.inr (.inr hx))) queue hmem
      ((h1 d).2 (.inl rfl)) ?_
    simpa using List.length_filter_le _ _

/-- The loop ends: it takes at most one turn for each object on the stack and one for each node
reference of an object it opens, and it opens none twice. -/
theorem markLoop_done {dom : List α} (hdom : ∀ d, refs.nodes d ≠ [] → d ∈ dom) :
    ∀ (n : ℕ) {s : State α}, cost refs.nodes dom (· ∈ s.live) s.queue ≤ n →
      (markLoop refs n s).queue = []
  | 0, s, h => cost_eq_zero refs.nodes (Nat.le_zero.1 h)
  | n + 1, s, h => by
    simp only [markLoop]
    split_ifs with hq
    · exact hq
    · have := markStep_cost hdom hq
      exact markLoop_done hdom n (by omega)

/-- More turns than it takes change nothing. -/
theorem markLoop_of_done : ∀ {m n : ℕ} {s : State α}, (markLoop refs m s).queue = [] → m ≤ n →
    markLoop refs n s = markLoop refs m s
  | 0, n, s, h, _ => by
    simp only [markLoop] at h ⊢
    cases n <;> simp [markLoop, h]
  | m + 1, 0, _, _, hmn => absurd hmn (by omega)
  | m + 1, n + 1, s, h, hmn => by
    simp only [markLoop] at h ⊢
    split_ifs at h ⊢
    · rfl
    · exact markLoop_of_done h (by omega)

theorem markLoop_eq_of_done {m n : ℕ} {s : State α} (hm : (markLoop refs m s).queue = [])
    (hn : (markLoop refs n s).queue = []) : markLoop refs m s = markLoop refs n s := by
  rw [← markLoop_of_done hm (le_max_left m n), ← markLoop_of_done hn (le_max_right m n)]

/-- The loop from `roots` ends in that many turns. -/
theorem markLoop_turns {dom : List α} (hdom : ∀ d, refs.nodes d ≠ [] → d ∈ dom) {roots : List α}
    {n : ℕ} (hn : turns refs dom roots ≤ n) :
    (markLoop refs n ⟨∅, roots.reverse⟩).queue = [] := by
  refine markLoop_done hdom n (le_trans (le_of_eq ?_) hn)
  simp [turns, cost]

end Done

section Opened

variable [DecidableEq α] (refs : Refs α)

/-- The objects that the loop looks up, in order: those it takes off the stack before they are
marked. -/
def opened : ℕ → State α → List α
  | 0, _ => []
  | n + 1, s =>
    match s.queue with
    | [] => []
    | d :: _ =>
      if d ∈ s.live then opened n (markStep refs s) else d :: opened n (markStep refs s)

variable {refs}

/-- What is marked stays marked. -/
theorem live_subset_markStep (s : State α) : s.live ⊆ (markStep refs s).live := by
  obtain ⟨live, queue⟩ := s
  rcases queue with _ | ⟨d, queue⟩
  · exact Finset.Subset.refl _
  by_cases hmem : d ∈ live
  · rw [markStep_skip refs hmem]
  · exact fun x hx => ((markStep_open refs queue hmem).1 x).2 (.inr (.inr hx))

theorem notMem_live_of_opened : ∀ {n : ℕ} {s : State α} {x : α}, x ∈ opened refs n s → x ∉ s.live
  | 0, _, _, h => by cases h
  | n + 1, ⟨live, []⟩, _, h => by cases h
  | n + 1, ⟨live, d :: queue⟩, x, h => by
    have hlater : x ∈ opened refs n (markStep refs ⟨live, d :: queue⟩) → x ∉ live := fun hx hl =>
      notMem_live_of_opened hx (live_subset_markStep _ hl)
    simp only [opened] at h
    split_ifs at h with hmem
    · exact hlater h
    · rcases List.mem_cons.1 h with rfl | h
      · exact hmem
      · exact hlater h

/-- No object is looked up twice: when one is, it is marked. -/
theorem opened_nodup : ∀ (n : ℕ) (s : State α), (opened refs n s).Nodup
  | 0, _ => List.nodup_nil
  | n + 1, ⟨live, []⟩ => List.nodup_nil
  | n + 1, ⟨live, d :: queue⟩ => by
    simp only [opened]
    split_ifs with hmem
    · exact opened_nodup n _
    · refine List.nodup_cons.2 ⟨fun h => notMem_live_of_opened h ?_, opened_nodup n _⟩
      exact ((markStep_open refs queue hmem).1 d).2 (.inl rfl)

theorem live_subset_markLoop : ∀ (n : ℕ) (s : State α), s.live ⊆ (markLoop refs n s).live
  | 0, _ => Finset.Subset.refl _
  | n + 1, s => by
    simp only [markLoop]
    split_ifs
    · exact Finset.Subset.refl _
    · exact (live_subset_markStep s).trans (live_subset_markLoop n _)

/-- The loop looks at nothing but what it marks. -/
theorem markLoop_congr {refs' : Refs α} : ∀ {n : ℕ} {s : State α},
    (∀ d ∈ (markLoop refs n s).live, refs d = refs' d) → markLoop refs' n s = markLoop refs n s
  | 0, _, _ => rfl
  | n + 1, ⟨live, []⟩, _ => rfl
  | n + 1, ⟨live, d :: queue⟩, h => by
    have hnext : markLoop refs (n + 1) ⟨live, d :: queue⟩
        = markLoop refs n (markStep refs ⟨live, d :: queue⟩) := rfl
    have hnext' : markLoop refs' (n + 1) ⟨live, d :: queue⟩
        = markLoop refs' n (markStep refs' ⟨live, d :: queue⟩) := rfl
    rw [hnext] at h ⊢
    have hstep : markStep refs' ⟨live, d :: queue⟩ = markStep refs ⟨live, d :: queue⟩ := by
      by_cases hmem : d ∈ live
      · rw [markStep_skip refs hmem, markStep_skip refs' hmem]
      · have hd : d ∈ (markStep refs ⟨live, d :: queue⟩).live :=
          ((markStep_open refs queue hmem).1 d).2 (.inl rfl)
        exact markStep_congr (h d (live_subset_markLoop n _ hd)).symm
    rw [hnext', hstep]
    exact markLoop_congr h

end Opened

section Kinds

variable [DecidableEq α] (refs : Refs α) (P : α → Prop)

/-- Nodes of a kind that leaf references never lead to: once marked they have been opened. -/
structure Closed (roots : List α) (s : State α) : Prop where
  queue : ∀ x ∈ s.queue, P x
  roots : ∀ x ∈ roots, x ∈ s.live ∨ x ∈ s.queue
  leaves : ∀ x ∈ s.live, P x → ∀ y ∈ refs.leaves x, y ∈ s.live
  nodes : ∀ x ∈ s.live, P x → ∀ y ∈ refs.nodes x, y ∈ s.live ∨ y ∈ s.queue

variable {refs P} {roots : List α}

omit [DecidableEq α] in
theorem closed_init (h : ∀ x ∈ roots, P x) : Closed refs P roots ⟨∅, roots.reverse⟩ where
  queue x hx := h x (List.mem_reverse.1 hx)
  roots x hx := .inr (List.mem_reverse.2 hx)
  leaves x hx := by simp at hx
  nodes x hx := by simp at hx

variable (hleaves : ∀ x, P x → ∀ y ∈ refs.leaves x, ¬P y) (hnodes : ∀ x, P x → ∀ y ∈ refs.nodes x, P y)

include hleaves hnodes

theorem markStep_closed {s : State α} (h : Closed refs P roots s) :
    Closed refs P roots (markStep refs s) := by
  obtain ⟨live, queue⟩ := s
  rcases queue with _ | ⟨d, queue⟩
  · exact h
  have hd : P d := h.queue d List.mem_cons_self
  by_cases hmem : d ∈ live
  · rw [markStep_skip refs hmem]
    have hskip : ∀ {y}, y ∈ live ∨ y ∈ d :: queue → y ∈ live ∨ y ∈ queue := by
      rintro y (hy | hy)
      · exact .inl hy
      · rcases List.mem_cons.1 hy with rfl | hy
        · exact .inl hmem
        · exact .inr hy
    exact ⟨fun x hx => h.queue x (List.mem_cons_of_mem _ hx), fun x hx => hskip (h.roots x hx),
      h.leaves, fun x hx hp y hy => hskip (h.nodes x hx hp y hy)⟩
  obtain ⟨h1, h2⟩ := markStep_open refs queue hmem
  have hopen : ∀ {y}, y ∈ live ∨ y ∈ d :: queue →
      y ∈ (markStep refs ⟨live, d :: queue⟩).live ∨ y ∈ (markStep refs ⟨live, d :: queue⟩).queue := by
    rintro y (hy | hy)
    · exact .inl ((h1 y).2 (.inr (.inr hy)))
    · rcases List.mem_cons.1 hy with rfl | hy
      · exact .inl ((h1 y).2 (.inl rfl))
      · rw [h2]
        exact .inr (List.mem_append_right _ hy)
  refine ⟨fun x hx => ?_, fun x hx => hopen (h.roots x hx), fun x hx hp y hy => ?_,
    fun x hx hp y hy => ?_⟩
  · rw [h2] at hx
    rcases List.mem_append.1 hx with hx | hx
    · exact hnodes d hd x (List.mem_of_mem_filter (List.mem_reverse.1 hx))
    · exact h.queue x (List.mem_cons_of_mem _ hx)
  · rcases (h1 x).1 hx with rfl | hx | hx
    · exact (h1 y).2 (.inr (.inl hy))
    · exact absurd hp (hleaves d hd x hx)
    · exact (h1 y).2 (.inr (.inr (h.leaves x hx hp y hy)))
  · rcases (h1 x).1 hx with rfl | hx | hx
    · by_cases hlive : y ∈ (markStep refs ⟨live, x :: queue⟩).live
      · exact .inl hlive
      · rw [h2]
        refine .inr (List.mem_append_left _ (List.mem_reverse.2 (List.mem_filter.2 ⟨hy, ?_⟩)))
        exact decide_eq_true hlive
    · exact absurd hp (hleaves d hd x hx)
    · exact hopen (h.nodes x hx hp y hy)

/-- What the loop has marked when it ends is closed under the references of this kind of nodes. -/
theorem markLoop_closed : ∀ (n : ℕ) {s : State α}, Closed refs P roots s →
    Closed refs P roots (markLoop refs n s)
  | 0, _, h => h
  | n + 1, s, h => by
    simp only [markLoop]
    split_ifs
    · exact h
    · exact markLoop_closed n (markStep_closed hleaves hnodes h)

end Kinds

section Walk

variable [DecidableEq α]

/-- The search that follows node references only, with a visited set of its own: what it visits,
latest first. -/
def walk (next : α → List α) : ℕ → List α → List α → List α
  | 0, _, seen => seen
  | _ + 1, [], seen => seen
  | n + 1, d :: stack, seen =>
    if d ∈ seen then walk next n stack seen
    else walk next n ((next d).reverse ++ stack) (d :: seen)

@[simp] theorem walk_nil (next : α → List α) (seen : List α) : ∀ n, walk next n [] seen = seen
  | 0 => rfl
  | _ + 1 => rfl

theorem walk_suffix (next : α → List α) : ∀ (n : ℕ) (stack seen : List α),
    seen <:+ walk next n stack seen
  | 0, _, _ => List.suffix_rfl
  | _ + 1, [], _ => List.suffix_rfl
  | n + 1, d :: stack, seen => by
    simp only [walk]
    split_ifs
    · exact walk_suffix next n stack seen
    · exact (List.suffix_cons d seen).trans (walk_suffix next n _ _)

/-- A walk visits only what it is given, and what that leads to. -/
theorem walk_least {next : α → List α} {K : α → Prop} {x : α} : ∀ {n : ℕ} {stack seen : List α},
    (∀ y ∈ stack, K y) → (∀ y ∈ seen, K y) → (∀ y, K y → ∀ z ∈ next y, K z) →
      x ∈ walk next n stack seen → K x
  | 0, _, _, _, hseen, _, h => hseen x h
  | _ + 1, [], _, _, hseen, _, h => hseen x h
  | n + 1, d :: stack, seen, hstack, hseen, hnext, h => by
    have hd : K d := hstack d List.mem_cons_self
    have hrest : ∀ y ∈ stack, K y := fun y hy => hstack y (List.mem_cons_of_mem d hy)
    simp only [walk] at h
    split_ifs at h
    · exact walk_least hrest hseen hnext h
    · refine walk_least (fun y hy => ?_) (List.forall_mem_cons.2 ⟨hd, hseen⟩) hnext h
      rcases List.mem_append.1 hy with hy | hy
      · exact hnext d hd y (List.mem_reverse.1 hy)
      · exact hrest y hy

/-- A finished walk visits what it was given and whatever it visits refers to. -/
theorem walk_closed {next : α → List α} {dom : List α} (hdom : ∀ d, next d ≠ [] → d ∈ dom) :
    ∀ (n : ℕ) (stack seen : List α), cost next dom (· ∈ seen) stack ≤ n →
      (∀ x ∈ seen, ∀ y ∈ next x, y ∈ seen ∨ y ∈ stack) →
      (∀ x ∈ stack, x ∈ walk next n stack seen)
        ∧ ∀ x ∈ walk next n stack seen, ∀ y ∈ next x, y ∈ walk next n stack seen
  | 0, stack, seen, h, hc => by
    have hs := cost_eq_zero next (Nat.le_zero.1 h)
    subst hs
    refine ⟨by simp, fun x hx y hy => ?_⟩
    simpa [walk] using hc x hx y hy
  | n + 1, [], seen, _, hc => by
    refine ⟨by simp, fun x hx y hy => ?_⟩
    simpa [walk] using hc x hx y hy
  | n + 1, d :: stack, seen, h, hc => by
    simp only [walk]
    split_ifs with hd
    · have := cost_skip next dom (· ∈ seen) d stack
      have ih := walk_closed hdom n stack seen (by omega) fun x hx y hy => by
        rcases hc x hx y hy with h1 | h1
        · exact .inl h1
        · rcases List.mem_cons.1 h1 with rfl | h1
          · exact .inl hd
          · exact .inr h1
      refine ⟨fun x hx => ?_, ih.2⟩
      rcases List.mem_cons.1 hx with rfl | hx
      · exact (walk_suffix next n stack seen).subset hd
      · exact ih.1 x hx
    · have hpushed : (next d).reverse.length ≤ (next d).length := by simp
      have hmono : ∀ x, x ∈ seen → x ∈ d :: seen := fun _ hx => List.mem_cons_of_mem d hx
      have := cost_open next hdom (· ∈ seen) (· ∈ d :: seen) hmono stack hd List.mem_cons_self
        hpushed
      have ih := walk_closed hdom n ((next d).reverse ++ stack) (d :: seen) (by omega) fun x hx y hy => by
          simp only [List.mem_cons, List.mem_append, List.mem_reverse] at hx ⊢
          rcases hx with rfl | hx
          · exact .inr (.inl hy)
          · rcases hc x hx y hy with h1 | h1
            · exact .inl (.inr h1)
            · rcases List.mem_cons.1 h1 with rfl | h1
              · exact .inl (.inl rfl)
              · exact .inr (.inr h1)
      refine ⟨fun x hx => ?_, ih.2⟩
      rcases List.mem_cons.1 hx with rfl | hx
      · exact (walk_suffix next n _ _).subset List.mem_cons_self
      · exact ih.1 x (List.mem_append_right _ hx)

end Walk

section Complete

variable [DecidableEq α] (refs : Refs α)

/-- No leaf reference of a visited object runs ahead of the walk: where it refers to an object that
can be opened, the walk has visited that object by then. The list is latest first. -/
def LeavesBehind : List α → Prop
  | [] => True
  | t :: r => (∀ x ∈ refs.leaves t, (refs x).isSome → x ∈ t :: r) ∧ LeavesBehind r

instance decidableLeavesBehind : ∀ l : List α, Decidable (LeavesBehind refs l)
  | [] => .isTrue trivial
  | t :: r =>
    have := decidableLeavesBehind r
    inferInstanceAs (Decidable ((∀ x ∈ refs.leaves t, (refs x).isSome → x ∈ t :: r)
      ∧ LeavesBehind refs r))

/-- What a search that has visited `seen` has marked. -/
def Marks (seen : List α) (x : α) : Prop := x ∈ seen ∨ ∃ t ∈ seen, x ∈ refs.leaves t

variable {refs}

omit [DecidableEq α] in
theorem LeavesBehind.of_suffix : ∀ {V seen : List α}, LeavesBehind refs V → seen <:+ V →
    LeavesBehind refs seen
  | [], seen, h, hs => by rw [List.suffix_nil.1 hs]; exact h
  | t :: r, seen, h, hs => by
    rcases List.suffix_cons_iff.1 hs with rfl | hs
    · exact h
    · exact h.2.of_suffix hs

omit [DecidableEq α] in
theorem LeavesBehind.mem : ∀ {seen : List α}, LeavesBehind refs seen → ∀ t ∈ seen,
    ∀ x ∈ refs.leaves t, (refs x).isSome → x ∈ seen
  | [], _, t, ht, _, _, _ => absurd ht (by simp)
  | s :: r, h, t, ht, x, hx, ho => by
    rcases List.mem_cons.1 ht with rfl | ht
    · exact h.1 x hx ho
    · exact List.mem_cons_of_mem _ (h.2.mem t ht x hx ho)

/-- `queue` is `stack` without some objects that are marked already. -/
inductive Skips (live : Finset α) : List α → List α → Prop
  | nil : Skips live [] []
  | keep {d queue stack} : Skips live queue stack → Skips live (d :: queue) (d :: stack)
  | drop {d queue stack} : d ∈ live → Skips live queue stack → Skips live queue (d :: stack)

omit [DecidableEq α] in
theorem Skips.mono {live live' : Finset α} (h : ∀ x ∈ live, x ∈ live') {queue stack : List α}
    (hs : Skips live queue stack) : Skips live' queue stack := by
  induction hs with
  | nil => exact .nil
  | keep _ ih => exact .keep ih
  | drop hd _ ih => exact .drop (h _ hd) ih

theorem Skips.filter_append {live : Finset α} {queue stack : List α} (hs : Skips live queue stack) :
    ∀ l : List α, Skips live (l.filter (· ∉ live) ++ queue) (l ++ stack)
  | [] => hs
  | d :: l => by
    by_cases hd : d ∈ live
    · simpa [List.filter_cons, hd] using Skips.drop hd (hs.filter_append l)
    · simpa [List.filter_cons, hd] using Skips.keep (d := d) (hs.filter_append l)

omit [DecidableEq α] in
theorem Skips.refl (live : Finset α) : ∀ l : List α, Skips live l l
  | [] => .nil
  | _ :: l => .keep (Skips.refl live l)

/-- A loop that can take one more turn reaches what the state after that turn reaches. -/
theorem markLoop_succ {s : State α} (h : s.queue ≠ []) (m : ℕ) :
    markLoop refs (m + 1) s = markLoop refs m (markStep refs s) := by
  simp [markLoop, h]

theorem markLoop_skip {d : α} {queue : List α} {live : Finset α} (hd : d ∈ live) (m : ℕ) :
    markLoop refs (m + 1) ⟨live, d :: queue⟩ = markLoop refs m ⟨live, queue⟩ := by
  rw [markLoop_succ (by simp), markStep_skip refs hd]

omit [DecidableEq α] in
/-- Visiting an object that is marked and cannot be opened marks nothing more. -/
theorem marks_unopened {d x : α} {seen : List α} (hnone : refs d = none)
    (hd : Marks refs seen d) : Marks refs (d :: seen) x ↔ Marks refs seen x := by
  simp only [Marks, List.mem_cons, exists_eq_or_imp, refs.leaves_of_none hnone, List.not_mem_nil,
    false_or] at hd ⊢
  refine ⟨?_, fun h => h.imp_left .inr⟩
  rintro ((rfl | h) | h)
  · exact hd
  · exact .inl h
  · exact .inr h

/-- While no leaf reference runs ahead of the walk, the loop opens what the walk visits, in the
same order: it skips an object the walk visits only if that object cannot be opened. -/
theorem markLoop_walk {dom : List α} (hdom : ∀ d, refs.nodes d ≠ [] → d ∈ dom) :
    ∀ (n : ℕ) {stack seen queue : List α} {live : Finset α},
      cost refs.nodes dom (· ∈ seen) stack ≤ n →
      LeavesBehind refs (walk refs.nodes n stack seen) → Skips live queue stack →
      (∀ x, x ∈ live ↔ Marks refs seen x) →
      ∃ m, (markLoop refs m ⟨live, queue⟩).queue = [] ∧
        ∀ x, x ∈ (markLoop refs m ⟨live, queue⟩).live ↔
          Marks refs (walk refs.nodes n stack seen) x
  | 0, stack, seen, queue, live, h, _, hs, hl => by
    have hst := cost_eq_zero refs.nodes (Nat.le_zero.1 h)
    subst hst
    cases hs
    exact ⟨0, rfl, hl⟩
  | n + 1, [], seen, queue, live, _, _, hs, hl => by
    cases hs
    exact ⟨0, rfl, hl⟩
  | n + 1, d :: stack, seen, queue, live, h, hb, hs, hl => by
    have hskip := cost_skip refs.nodes dom (· ∈ seen) d stack
    by_cases hd : d ∈ seen
    · -- visited before, so marked before: both skip it
      have hdl : d ∈ live := (hl d).2 (.inl hd)
      simp only [walk, if_pos hd] at hb ⊢
      cases hs with
      | keep hs =>
        obtain ⟨m, h1, h2⟩ := markLoop_walk hdom n (by omega) hb hs hl
        refine ⟨m + 1, ?_⟩
        rw [markLoop_skip hdl]
        exact ⟨h1, h2⟩
      | drop _ hs => exact markLoop_walk hdom n (by omega) hb hs hl
    simp only [walk, if_neg hd] at hb ⊢
    have hpushed : (refs.nodes d).reverse.length ≤ (refs.nodes d).length := by simp
    have hmono : ∀ x, x ∈ seen → x ∈ d :: seen := fun _ hx => List.mem_cons_of_mem d hx
    have hopen := cost_open refs.nodes hdom (· ∈ seen) (· ∈ d :: seen) hmono stack hd
      List.mem_cons_self hpushed
    have hbs : LeavesBehind refs (d :: seen) := hb.of_suffix (walk_suffix _ _ _ _)
    by_cases hdl : d ∈ live
    · -- marked by a leaf reference only: it cannot be opened, or that reference ran ahead
      have hnone : refs d = none := by
        rcases hr : refs d with _ | r
        · rfl
        · rcases (hl d).1 hdl with hd' | ⟨t, ht, hdt⟩
          · exact absurd hd' hd
          · exact absurd (hbs.2.mem t ht d hdt (by simp [hr])) hd
      rw [refs.nodes_of_none hnone, List.reverse_nil, List.nil_append] at hb hopen ⊢
      have hl' : ∀ x, x ∈ live ↔ Marks refs (d :: seen) x := fun x =>
        (hl x).trans (marks_unopened hnone ((hl d).1 hdl)).symm
      cases hs with
      | keep hs =>
        obtain ⟨m, h1, h2⟩ := markLoop_walk hdom n (by omega) hb hs hl'
        refine ⟨m + 1, ?_⟩
        rw [markLoop_skip hdl]
        exact ⟨h1, h2⟩
      | drop _ hs => exact markLoop_walk hdom n (by omega) hb hs hl'
    · -- new to both: both open it
      cases hs with
      | drop hd' _ => exact absurd hd' hdl
      | @keep _ queue _ hs =>
        obtain ⟨h1, h2⟩ := markStep_open refs queue hdl
        have hl' : ∀ x, x ∈ (markStep refs ⟨live, d :: queue⟩).live ↔ Marks refs (d :: seen) x :=
          fun x => by
            rw [h1 x, hl x]
            simp only [Marks, List.mem_cons, exists_eq_or_imp]
            tauto
        have hs' := (hs.mono fun x hx => (h1 x).2 (.inr (.inr hx))).filter_append
          (refs.nodes d).reverse
        rw [List.filter_reverse, ← h2] at hs'
        obtain ⟨m, h3, h4⟩ := markLoop_walk hdom n (by omega) hb hs' hl'
        refine ⟨m + 1, ?_⟩
        rw [markLoop_succ (by simp)]
        exact ⟨h3, h4⟩

/-- The walk the loop is compared with: from the last root, node references last first. -/
def visits (refs : Refs α) (dom roots : List α) : List α :=
  walk refs.nodes (turns refs dom roots) roots.reverse []

theorem visits_singleton {refs : Refs α} {dom : List α} {d : α} (h : refs.nodes d = []) :
    visits refs dom [d] = [d] := by
  rw [visits, turns, cost, List.length_singleton, Nat.add_comm]
  simp [walk, h]

/-- Where no leaf reference runs ahead of the walk, the loop keeps everything the roots reach. -/
theorem markLoop_complete {dom : List α} (hdom : ∀ d, refs.nodes d ≠ [] → d ∈ dom)
    {roots : List α} (hb : LeavesBehind refs (visits refs dom roots)) {n : ℕ}
    (hn : turns refs dom roots ≤ n) {d : α} (h : refs.Reach roots d) :
    d ∈ (markLoop refs n ⟨∅, roots.reverse⟩).live := by
  have hcost : ∀ seen : α → Prop, [DecidablePred seen] → (∀ x, ¬ seen x) →
      cost refs.nodes dom seen roots.reverse = turns refs dom roots := fun seen _ hs => by
    simp [turns, cost, hs]
  obtain ⟨hroots, hclosed⟩ :=
    walk_closed hdom (turns refs dom roots) roots.reverse [] (hcost _ (by simp)).le (by simp)
  have hempty : ∀ x, x ∈ (∅ : Finset α) ↔ Marks refs [] x := by simp [Marks]
  obtain ⟨m, hm, hlive⟩ := markLoop_walk hdom (turns refs dom roots)
    (hcost _ (by simp)).le hb (Skips.refl ∅ roots.reverse) hempty
  rw [markLoop_eq_of_done (markLoop_turns hdom hn) hm, hlive]
  have hopen : ∀ x, Marks refs (visits refs dom roots) x → (refs x).isSome →
      x ∈ visits refs dom roots := by
    rintro x (hx | ⟨t, ht, hx⟩) ho
    · exact hx
    · exact hb.mem t ht x hx ho
  refine h.least (K := Marks refs (visits refs dom roots)) (fun x hx => ?_) (fun x hx y hy => ?_)
    (fun x hx y hy => ?_)
  · exact .inl (hroots x (List.mem_reverse.2 hx))
  · rcases ho : refs x with _ | r
    · simp [refs.leaves_of_none ho] at hy
    · exact .inr ⟨x, hopen x hx (by simp [ho]), hy⟩
  · rcases ho : refs x with _ | r
    · simp [refs.nodes_of_none ho] at hy
    · exact .inl (hclosed x (hopen x hx (by simp [ho])) y hy)

end Complete

end Marking
