import Mathlib.Data.Finset.Card
import Mathlib.Data.List.MinMax

/-!
# A bounded window of recent keys

A table remembers when each key was last let through, for a time and up to a number of keys. It
forgets expired keys only now and then, and makes room by forgetting the oldest one. What it answers
is nevertheless simple: a key is repeated if it was last let through less than `ttl` ago and fewer
than `capacity` other keys were let through since.
-/

namespace Recency

variable {κ : Type*} [DecidableEq κ]

/-- When `k` was let through, by the first entry for it. -/
def find (l : List (κ × ℕ)) (k : κ) : Option ℕ := (l.find? fun e => e.1 = k).map (·.2)

def forget (l : List (κ × ℕ)) (k : κ) : List (κ × ℕ) := l.filter fun e => e.1 ≠ k

structure Window (κ : Type*) where
  ttl : ℕ
  capacity : ℕ
  seen : List (κ × ℕ)

namespace Window

variable (w : Window κ)

/-- Forget what has expired, if more than half of the room is taken. -/
def expire (now : ℕ) : Window κ :=
  if w.capacity / 2 < w.seen.length then
    { w with seen := w.seen.filter fun e => now - e.2 < w.ttl }
  else w

/-- Forget the oldest key, if there is no room. -/
def evict : Window κ :=
  if w.capacity ≤ w.seen.length then
    match w.seen.argmin (·.2) with
    | some oldest => { w with seen := forget w.seen oldest.1 }
    | none => w
  else w

def put (now : ℕ) (k : κ) : Window κ := { w with seen := (k, now) :: forget w.seen k }

/-- Whether the key is repeated; if it is not, it is let through. -/
def touch (now : ℕ) (k : κ) : Bool × Window κ :=
  let w := w.expire now
  match find w.seen k with
  | some t => if now - t < w.ttl then (true, w) else (false, w.evict.put now k)
  | none => (false, w.evict.put now k)

end Window

section Find

omit [DecidableEq κ] in
theorem key_inj {l : List (κ × ℕ)} (hl : (l.map (·.1)).Nodup) {k : κ} {t t' : ℕ}
    (h : (k, t) ∈ l) (h' : (k, t') ∈ l) : t = t' :=
  congrArg Prod.snd (List.inj_on_of_nodup_map hl h h' rfl)

theorem mem_of_find {l : List (κ × ℕ)} {k : κ} {t : ℕ} (h : find l k = some t) : (k, t) ∈ l := by
  obtain ⟨e, he, rfl⟩ := Option.map_eq_some_iff.1 h
  have hk := List.find?_some he
  simp only [decide_eq_true_eq] at hk
  exact hk ▸ List.mem_of_find?_eq_some he

theorem find_eq_none {l : List (κ × ℕ)} {k : κ} : find l k = none ↔ ∀ e ∈ l, e.1 ≠ k := by
  simp [find]

theorem find_of_mem {l : List (κ × ℕ)} (hl : (l.map (·.1)).Nodup) {k : κ} {t : ℕ}
    (h : (k, t) ∈ l) : find l k = some t := by
  rcases hf : find l k with _ | t'
  · exact absurd rfl (find_eq_none.1 hf _ h)
  · rw [key_inj hl h (mem_of_find hf)]

theorem find_cons_self (l : List (κ × ℕ)) (k : κ) (t : ℕ) : find ((k, t) :: l) k = some t := by
  simp [find]

theorem find_cons_of_ne (l : List (κ × ℕ)) {k k' : κ} (h : k' ≠ k) (t : ℕ) :
    find ((k', t) :: l) k = find l k := by
  simp [find, h]

theorem mem_forget {l : List (κ × ℕ)} {k : κ} {e : κ × ℕ} :
    e ∈ forget l k ↔ e ∈ l ∧ e.1 ≠ k := by
  simp [forget]

end Find

section Spec

/-- The keys let through after `t`. -/
def since (l : List (κ × ℕ)) (t : ℕ) : Finset κ :=
  ((l.filter fun e => t < e.2).map (·.1)).toFinset

theorem mem_since {l : List (κ × ℕ)} {t : ℕ} {k : κ} :
    k ∈ since l t ↔ ∃ t', (k, t') ∈ l ∧ t < t' := by
  simp [since]

/-- Of the keys in `l`, latest first: `k` was last let through less than `ttl` ago, with fewer than
`capacity` others since. -/
def Recent (ttl capacity : ℕ) (l : List (κ × ℕ)) (now : ℕ) (k : κ) : Prop :=
  ∃ t, find l k = some t ∧ now - t < ttl ∧ (since l t).card < capacity

/-- The table and the keys let through so far, latest first. -/
structure Tracks (w : Window κ) (l : List (κ × ℕ)) (now : ℕ) : Prop where
  keys : (w.seen.map (·.1)).Nodup
  size : w.seen.length ≤ w.capacity
  sound : ∀ e ∈ w.seen, find l e.1 = some e.2
  closed : ∀ e ∈ w.seen, ∀ f ∈ l, e.2 < f.2 → ∃ t, (f.1, t) ∈ w.seen
  complete : ∀ k t, find l k = some t → now - t < w.ttl → (since l t).card < w.capacity →
    (k, t) ∈ w.seen
  past : ∀ f ∈ l, f.2 ≤ now
  order : l.Pairwise fun f g => g.2 < f.2

theorem tracks_empty (ttl capacity now : ℕ) : Tracks (⟨ttl, capacity, []⟩ : Window κ) [] now where
  keys := by simp
  size := by simp
  sound := by simp
  closed := by simp
  complete := by simp [find]
  past := by simp
  order := by simp

/-- The first entry for a key is its latest. -/
theorem latest {l : List (κ × ℕ)} (hl : l.Pairwise fun f g => g.2 < f.2) {k : κ} {t t' : ℕ}
    (hk : find l k = some t) (h : (k, t') ∈ l) : t' ≤ t := by
  induction l with
  | nil => cases h
  | cons e l ih =>
    rw [List.pairwise_cons] at hl
    by_cases he : e.1 = k
    · have htime : e.2 = t := by simpa [find, he] using hk
      rcases List.mem_cons.1 h with rfl | h
      · exact htime.le
      · exact htime ▸ (hl.1 _ h).le
    · rw [show e = (e.1, e.2) from rfl, find_cons_of_ne l he] at hk
      rcases List.mem_cons.1 h with rfl | h
      · exact absurd rfl he
      · exact ih hl.2 hk h

/-- The keys let through after `t` stand before it. -/
theorem since_append {l₁ l₂ : List (κ × ℕ)} {k : κ} {t : ℕ}
    (hl : (l₁ ++ (k, t) :: l₂).Pairwise fun f g => g.2 < f.2) :
    since (l₁ ++ (k, t) :: l₂) t = (l₁.map (·.1)).toFinset := by
  obtain ⟨-, hbehind, hbefore⟩ := List.pairwise_append.1 hl
  rw [List.pairwise_cons] at hbehind
  ext k'
  rw [mem_since, List.mem_toFinset, List.mem_map]
  constructor
  · rintro ⟨t', hmem, hlt⟩
    rcases List.mem_append.1 hmem with hmem | hmem
    · exact ⟨_, hmem, rfl⟩
    · rcases List.mem_cons.1 hmem with hsame | hmem
      · cases hsame
        omega
      · have hold := hbehind.1 _ hmem
        simp only [] at hold
        omega
  · rintro ⟨e, he, rfl⟩
    exact ⟨e.2, List.mem_append_left _ he, hbefore e he _ List.mem_cons_self⟩

/-- A recent key stands before the keys that are older, and behind fewer than `capacity` others. -/
theorem recent_iff_append {ttl capacity now : ℕ} {l : List (κ × ℕ)} {k : κ}
    (hl : l.Pairwise fun f g => g.2 < f.2) :
    Recent ttl capacity l now k ↔ ∃ l₁ t l₂, l = l₁ ++ (k, t) :: l₂ ∧ (∀ e ∈ l₁, e.1 ≠ k) ∧
      now - t < ttl ∧ (l₁.map (·.1)).toFinset.card < capacity := by
  constructor
  · rintro ⟨t, hfind, hlive, hcard⟩
    obtain ⟨e, he, rfl⟩ := Option.map_eq_some_iff.1 hfind
    obtain ⟨hkey, l₁, l₂, rfl, hbefore⟩ := List.find?_eq_some_iff_append.1 he
    obtain rfl : e.1 = k := by simpa using hkey
    rw [since_append hl] at hcard
    exact ⟨l₁, e.2, l₂, rfl, fun f hf => by simpa using hbefore f hf, hlive, hcard⟩
  · rintro ⟨l₁, t, l₂, rfl, hbefore, hlive, hcard⟩
    refine ⟨t, ?_, hlive, by rwa [since_append hl]⟩
    have hnone : l₁.find? (fun e => e.1 = k) = none := List.find?_eq_none.2 (by simpa using hbefore)
    simp [find, List.find?_append, hnone]

end Spec

section Touch

variable {w : Window κ} {l : List (κ × ℕ)} {before now : ℕ}

omit [DecidableEq κ] in
/-- No key that the table remembers has expired, if it is full. -/
theorem Window.expire_live (w : Window κ) (hpos : 0 < w.capacity) (now : ℕ)
    (hfull : w.capacity ≤ (w.expire now).seen.length) :
    ∀ e ∈ (w.expire now).seen, now - e.2 < w.ttl := by
  unfold Window.expire at hfull ⊢
  split_ifs at hfull ⊢ with hmany
  · intro e he
    simpa using (List.mem_filter.1 he).2
  · omega

omit [DecidableEq κ] in
@[simp] theorem Window.expire_ttl (w : Window κ) (now : ℕ) : (w.expire now).ttl = w.ttl := by
  unfold Window.expire
  split_ifs <;> rfl

omit [DecidableEq κ] in
@[simp] theorem Window.expire_capacity (w : Window κ) (now : ℕ) :
    (w.expire now).capacity = w.capacity := by
  unfold Window.expire
  split_ifs <;> rfl

omit [DecidableEq κ] in
theorem Window.expire_subset (w : Window κ) (now : ℕ) : (w.expire now).seen ⊆ w.seen := by
  unfold Window.expire
  split_ifs
  · exact List.filter_subset_self _
  · exact List.Subset.refl _

theorem Tracks.mono (h : Tracks w l before) (hnow : before ≤ now) : Tracks w l now where
  keys := h.keys
  size := h.size
  sound := h.sound
  closed := h.closed
  complete k t hk ht hcard := h.complete k t hk (by omega) hcard
  past f hf := (h.past f hf).trans hnow
  order := h.order

theorem Tracks.expire (h : Tracks w l now) : Tracks (w.expire now) l now := by
  unfold Window.expire
  split_ifs with hmany
  · have hsub : (w.seen.filter fun e => now - e.2 < w.ttl).Sublist w.seen := List.filter_sublist
    refine ⟨h.keys.sublist (hsub.map _), hsub.length_le.trans h.size,
      fun e he => h.sound e (hsub.subset he), fun e he f hf hlt => ?_,
      fun k t hk ht hc => List.mem_filter.2 ⟨h.complete k t hk ht hc, by simpa using ht⟩, h.past,
      h.order⟩
    obtain ⟨he, hlive⟩ := List.mem_filter.1 he
    simp only [decide_eq_true_eq] at hlive
    obtain ⟨t, ht⟩ := h.closed e he f hf hlt
    have hle := latest h.order (h.sound _ ht) hf
    exact ⟨t, List.mem_filter.2 ⟨ht, by simp only [decide_eq_true_eq] at *; omega⟩⟩
  · exact h

/-- What is remembered of `k` is newer than all but the keys let through since. -/
theorem Tracks.card_since (h : Tracks w l now) {k : κ} {t : ℕ} (hk : (k, t) ∈ w.seen) :
    (since l t).card < w.seen.length := by
  have hsub : since l t ⊆ ((w.seen.map (·.1)).toFinset).erase k := by
    intro k' hk'
    obtain ⟨t', hmem, hlt⟩ := mem_since.1 hk'
    obtain ⟨t'', hseen⟩ := h.closed _ hk _ hmem hlt
    refine Finset.mem_erase.2 ⟨?_, List.mem_toFinset.2 (List.mem_map.2 ⟨_, hseen, rfl⟩)⟩
    rintro rfl
    have := latest h.order (h.sound _ hk) hmem
    simp only [] at this
    omega
  have hmem : k ∈ (w.seen.map (·.1)).toFinset :=
    List.mem_toFinset.2 (List.mem_map.2 ⟨_, hk, rfl⟩)
  have hcard := Finset.card_le_card hsub
  rw [Finset.card_erase_of_mem hmem, List.toFinset_card_of_nodup h.keys, List.length_map] at hcard
  have hpos : 0 < w.seen.length := List.length_pos_of_mem hk
  omega

/-- A table that is up to date answers as the specification says. -/
theorem Tracks.recent_iff (h : Tracks w l now) (k : κ) :
    Recent w.ttl w.capacity l now k ↔ ∃ t, find w.seen k = some t ∧ now - t < w.ttl := by
  constructor
  · rintro ⟨t, hk, hlive, hcard⟩
    exact ⟨t, find_of_mem h.keys (h.complete k t hk hlive hcard), hlive⟩
  · rintro ⟨t, hk, hlive⟩
    have hmem := mem_of_find hk
    exact ⟨t, h.sound _ hmem, hlive, (h.card_since hmem).trans_le h.size⟩

theorem Window.evict_cases (w : Window κ) (hpos : 0 < w.capacity) :
    (w.seen.length < w.capacity ∧ w.evict = w) ∨
      w.capacity ≤ w.seen.length ∧ ∃ oldest ∈ w.seen, (∀ e ∈ w.seen, oldest.2 ≤ e.2) ∧
        w.evict = { w with seen := forget w.seen oldest.1 } := by
  unfold Window.evict
  split_ifs with hfull
  · refine .inr ⟨hfull, ?_⟩
    split
    · rename_i oldest hoption
      exact ⟨oldest, List.argmin_mem hoption, fun e he => List.le_of_mem_argmin he hoption, rfl⟩
    · rename_i hnone
      rw [List.argmin_eq_none] at hnone
      simp [hnone] at hfull
      omega
  · exact .inl ⟨by omega, rfl⟩

@[simp] theorem Window.evict_ttl (w : Window κ) : w.evict.ttl = w.ttl := by
  unfold Window.evict
  split_ifs
  · split <;> rfl
  · rfl

@[simp] theorem Window.evict_capacity (w : Window κ) : w.evict.capacity = w.capacity := by
  unfold Window.evict
  split_ifs
  · split <;> rfl
  · rfl

theorem Window.evict_sublist (w : Window κ) (hpos : 0 < w.capacity) :
    w.evict.seen.Sublist w.seen := by
  rcases w.evict_cases hpos with ⟨-, he⟩ | ⟨-, oldest, -, -, he⟩ <;> rw [he]
  exact List.filter_sublist

theorem Tracks.evict_size (h : Tracks w l now) (hpos : 0 < w.capacity) :
    w.evict.seen.length < w.capacity := by
  have hsize := h.size
  rcases w.evict_cases hpos with ⟨hroom, he⟩ | ⟨-, oldest, hmem, -, he⟩ <;> rw [he]
  · exact hroom
  · refine lt_of_lt_of_le ?_ h.size
    exact List.length_filter_lt_length_iff_exists.2 ⟨oldest, hmem, by simp⟩

/-- No two keys are let through at one time. -/
theorem Tracks.eq_of_time (h : Tracks w l now) {e f : κ × ℕ} (he : e ∈ l) (hf : f ∈ l)
    (htime : e.2 = f.2) : e = f := by
  have hnodup : (l.map (·.2)).Nodup := by
    rw [List.Nodup, List.pairwise_map]
    exact h.order.imp fun hlt => hlt.ne'
  exact List.inj_on_of_nodup_map hnodup he hf htime

/-- What is evicted is the oldest of a full table. -/
theorem Tracks.evict_kept (h : Tracks w l now) (hpos : 0 < w.capacity) {e : κ × ℕ}
    (he : e ∈ w.seen) :
    e ∈ w.evict.seen ∨ w.capacity ≤ w.seen.length ∧ ∀ f ∈ w.seen, f ≠ e → e.2 < f.2 := by
  rcases w.evict_cases hpos with ⟨-, hsame⟩ | ⟨hfull, oldest, hmem, hmin, hsome⟩
  · exact .inl (hsame.symm ▸ he)
  by_cases hkey : e.1 = oldest.1
  · refine .inr ⟨hfull, fun f hf hne => ?_⟩
    have htime : e.2 = oldest.2 := key_inj h.keys he (hkey ▸ hmem)
    refine lt_of_le_of_ne (htime ▸ hmin f hf) fun hsame => hne ?_
    exact h.eq_of_time (mem_of_find (h.sound f hf)) (mem_of_find (h.sound e he)) hsame.symm
  · exact .inl (hsome.symm ▸ mem_forget.2 ⟨he, hkey⟩)

theorem Window.put_keys (hkeys : (w.seen.map (·.1)).Nodup) (hpos : 0 < w.capacity) (k : κ) :
    ((w.evict.put now k).seen.map (·.1)).Nodup := by
  have hsub := w.evict_sublist hpos
  refine List.nodup_cons.2 ⟨fun hmem => ?_, hkeys.sublist ((List.filter_sublist.trans hsub).map _)⟩
  obtain ⟨e, he, hek⟩ := List.mem_map.1 hmem
  exact (mem_forget.1 he).2 hek

theorem since_put {k : κ} {t : ℕ} (ht : t < now) :
    insert k (since l t) ⊆ since ((k, now) :: l) t := by
  intro x hx
  rcases Finset.mem_insert.1 hx with rfl | hx
  · exact mem_since.2 ⟨now, List.mem_cons_self, ht⟩
  · obtain ⟨t', hmem, hlt⟩ := mem_since.1 hx
    exact mem_since.2 ⟨t', List.mem_cons_of_mem _ hmem, hlt⟩

/-- After the oldest key of a table, as many keys were let through as the table has, if a new one is
counted. -/
theorem Tracks.crowded (h : Tracks w l now) {k k' : κ} {t : ℕ} (hmem : (k', t) ∈ w.seen)
    (hold : ∀ e ∈ w.seen, e ≠ (k', t) → t < e.2) (hnew : ∀ t', (k, t') ∉ w.seen) :
    w.seen.length ≤ (insert k (since l t)).card := by
  have hall : ((w.seen.map (·.1)).toFinset.erase k') ∪ {k} ⊆ insert k (since l t) := by
    intro x hx
    rcases Finset.mem_union.1 hx with hx | hx
    · obtain ⟨hne, hx⟩ := Finset.mem_erase.1 hx
      obtain ⟨e, he, rfl⟩ := List.mem_map.1 (List.mem_toFinset.1 hx)
      refine Finset.mem_insert_of_mem (mem_since.2 ⟨e.2, mem_of_find (h.sound e he), ?_⟩)
      exact hold e he fun hsame => hne (by rw [hsame])
    · rw [Finset.mem_singleton.1 hx]
      exact Finset.mem_insert_self _ _
  have hk : k ∉ (w.seen.map (·.1)).toFinset.erase k' := by
    intro hx
    obtain ⟨e, he, rfl⟩ := List.mem_map.1 (List.mem_toFinset.1 (Finset.mem_erase.1 hx).2)
    exact hnew e.2 he
  have hcount := Finset.card_le_card hall
  rw [Finset.card_union_of_disjoint (Finset.disjoint_singleton_right.2 hk),
    Finset.card_erase_of_mem (List.mem_toFinset.2 (List.mem_map.2 ⟨_, hmem, rfl⟩)),
    List.toFinset_card_of_nodup h.keys, List.length_map, Finset.card_singleton] at hcount
  have hlenpos : 0 < w.seen.length := List.length_pos_of_mem hmem
  omega

/-- The key that is let through is put in front of the others. -/
theorem Tracks.put (h : Tracks w l now) (hpos : 0 < w.capacity) (hpast : ∀ f ∈ l, f.2 < now)
    (hlive : w.capacity ≤ w.seen.length → ∀ e ∈ w.seen, now - e.2 < w.ttl) {k : κ}
    (hnew : ∀ t, (k, t) ∈ w.seen → w.ttl ≤ now - t) :
    Tracks (w.evict.put now k) ((k, now) :: l) now := by
  have hsub := w.evict_sublist hpos
  have hlen : (forget w.evict.seen k).length ≤ w.evict.seen.length := List.length_filter_le _ _
  have hsize := h.evict_size hpos
  refine ⟨Window.put_keys h.keys hpos k, ?_, fun e he => ?_, fun e he f hf hlt => ?_,
    fun k' t hk' ht hcard => ?_, fun f hf => ?_, List.pairwise_cons.2 ⟨hpast, h.order⟩⟩
  · simp only [Window.put, Window.evict_capacity, List.length_cons]
    omega
  · rcases List.mem_cons.1 he with rfl | he
    · exact find_cons_self l k now
    · obtain ⟨he, hek⟩ := mem_forget.1 he
      rw [find_cons_of_ne l (Ne.symm hek)]
      exact h.sound e (hsub.subset he)
  · rcases List.mem_cons.1 hf with rfl | hf
    · exact ⟨now, List.mem_cons_self⟩
    rcases List.mem_cons.1 he with rfl | he
    · exact absurd (hpast f hf) (by simpa using hlt.le)
    by_cases hfk : f.1 = k
    · exact ⟨now, hfk ▸ List.mem_cons_self⟩
    -- what is newer than a key that stayed was not the oldest
    obtain ⟨he, -⟩ := mem_forget.1 he
    obtain ⟨t, ht⟩ := h.closed e (hsub.subset he) f hf hlt
    refine ⟨t, List.mem_cons_of_mem _ (mem_forget.2 ⟨?_, hfk⟩)⟩
    rcases h.evict_kept hpos ht with hstay | ⟨-, hold⟩
    · exact hstay
    · have htf := latest h.order (h.sound _ ht) hf
      have hte := hold e (hsub.subset he) (by rintro rfl; simp at hlt htf; omega)
      simp only [] at htf hte
      omega
  · by_cases hkk : k' = k
    · subst hkk
      rw [find_cons_self, Option.some.injEq] at hk'
      exact hk' ▸ List.mem_cons_self
    rw [find_cons_of_ne l (Ne.symm hkk)] at hk'
    simp only [Window.put, Window.evict_ttl, Window.evict_capacity] at ht hcard ⊢
    have htime : t < now := hpast _ (mem_of_find hk')
    have hcard' := (Finset.card_le_card (since_put htime)).trans_lt hcard
    have hmem : (k', t) ∈ w.seen := by
      refine h.complete k' t hk' ht (lt_of_le_of_lt ?_ hcard')
      exact Finset.card_le_card (Finset.subset_insert _ _)
    refine List.mem_cons_of_mem _ (mem_forget.2 ⟨?_, hkk⟩)
    rcases h.evict_kept hpos hmem with hstay | ⟨hfull, hold⟩
    · exact hstay
    -- were it evicted, every other key of a full table would be newer, and so is the new one
    have hfresh : ∀ t', (k, t') ∉ w.seen := fun t' ht' => by
      have h1 := hnew t' ht'
      have h2 := hlive hfull _ ht'
      simp only [] at h2
      omega
    have hcrowd := h.crowded hmem hold hfresh
    omega
  · rcases List.mem_cons.1 hf with rfl | hf
    · exact le_rfl
    · exact (hpast f hf).le

/-- The table answers as the specification does, and stays up to date. -/
theorem Tracks.touch (h : Tracks w l now) (hpos : 0 < w.capacity) (hpast : ∀ f ∈ l, f.2 < now)
    (k : κ) :
    ((w.touch now k).1 = true ↔ Recent w.ttl w.capacity l now k) ∧
      Tracks (w.touch now k).2 (if (w.touch now k).1 then l else (k, now) :: l) now := by
  have he := h.expire
  have hpos' : 0 < (w.expire now).capacity := by simpa using hpos
  have hrecent := he.recent_iff k
  rw [w.expire_ttl, w.expire_capacity] at hrecent
  have hlive : (w.expire now).capacity ≤ (w.expire now).seen.length →
      ∀ e ∈ (w.expire now).seen, now - e.2 < (w.expire now).ttl := by
    intro hfull
    rw [w.expire_capacity] at hfull
    rw [w.expire_ttl]
    exact w.expire_live hpos now hfull
  rw [hrecent]
  unfold Window.touch
  rcases hf : find (w.expire now).seen k with _ | t
  · have hnew : ∀ t, (k, t) ∈ (w.expire now).seen → (w.expire now).ttl ≤ now - t :=
      fun t ht => absurd rfl (find_eq_none.1 hf _ ht)
    simpa [hf] using he.put hpos' hpast hlive hnew
  · by_cases hage : now - t < w.ttl
    · simpa [hf, hage] using he
    · have hnew : ∀ t, (k, t) ∈ (w.expire now).seen → (w.expire now).ttl ≤ now - t := by
        intro t' ht'
        rw [key_inj he.keys ht' (mem_of_find hf), w.expire_ttl]
        omega
      simpa [hf, hage] using he.put hpos' hpast hlive hnew

/-- The same along a log of what the clock read, where the table is asked later than ever before. -/
theorem Tracks.touch_later {readings : List ℕ}
    (h : ∀ now, (∀ t ∈ readings, t ≤ now) → Tracks w l now) (hread : ∀ f ∈ l, f.2 ∈ readings)
    (hpos : 0 < w.capacity) (hlater : ∀ t ∈ readings, t < now) (k : κ) :
    ((w.touch now k).1 = true ↔ Recent w.ttl w.capacity l now k) ∧
      ∀ after, (∀ t ∈ readings ++ [now], t ≤ after) →
        Tracks (w.touch now k).2 (if (w.touch now k).1 then l else (k, now) :: l) after := by
  obtain ⟨hverdict, htracks⟩ := (h now fun t ht => (hlater t ht).le).touch hpos
    (fun f hf => hlater f.2 (hread f hf)) k
  exact ⟨hverdict, fun after hafter => htracks.mono (hafter now (by simp))⟩

@[simp] theorem Window.touch_ttl (w : Window κ) (now : ℕ) (k : κ) :
    (w.touch now k).2.ttl = w.ttl := by
  unfold Window.touch
  simp only []
  split
  · split_ifs <;> simp [Window.put]
  · simp [Window.put]

@[simp] theorem Window.touch_capacity (w : Window κ) (now : ℕ) (k : κ) :
    (w.touch now k).2.capacity = w.capacity := by
  unfold Window.touch
  simp only []
  split
  · split_ifs <;> simp [Window.put]
  · simp [Window.put]

/-- A table only remembers what it remembered before, and what is let through. -/
theorem Window.touch_seen (w : Window κ) (hpos : 0 < w.capacity) (now : ℕ) (k : κ) :
    ∀ e ∈ (w.touch now k).2.seen, e ∈ w.seen ∨ (w.touch now k).1 = false ∧ e = (k, now) := by
  have hpos' : 0 < (w.expire now).capacity := by simpa using hpos
  have hput : ∀ e ∈ ((w.expire now).evict.put now k).seen, e ∈ w.seen ∨ e = (k, now) := by
    intro e he
    rcases List.mem_cons.1 he with rfl | he
    · exact .inr rfl
    · exact .inl (w.expire_subset now ((Window.evict_sublist _ hpos').subset (mem_forget.1 he).1))
  intro e
  unfold Window.touch
  simp only []
  rcases find (w.expire now).seen k with _ | t
  · intro he
    exact (hput e he).imp_right fun h => ⟨rfl, h⟩
  · by_cases hage : now - t < w.ttl
    · simp only [Window.expire_ttl, hage, if_true]
      intro he
      exact .inl (w.expire_subset now he)
    · simp only [Window.expire_ttl, hage, if_false]
      intro he
      exact (hput e he).imp_right fun h => ⟨trivial, h⟩

/-- A repeated key is remembered. -/
theorem Window.touch_repeated (w : Window κ) (now : ℕ) (k : κ) (h : (w.touch now k).1 = true) :
    ∃ t, (k, t) ∈ w.seen := by
  unfold Window.touch at h
  simp only [] at h
  rcases hf : find (w.expire now).seen k with _ | t
  · simp [hf] at h
  · exact ⟨t, w.expire_subset now (mem_of_find hf)⟩

end Touch

section Live

variable {w : Window κ} {now later t : ℕ} {k : κ}

/-- When the key was let through, if that is less than `ttl` ago. -/
def Window.live (w : Window κ) (now : ℕ) (k : κ) : Option ℕ :=
  (find w.seen k).filter fun t => now - t < w.ttl

theorem Window.live_eq_some : w.live now k = some t ↔ find w.seen k = some t ∧ now - t < w.ttl := by
  simp [Window.live, Option.filter_eq_some_iff]

/-- What is no longer live stays so. -/
theorem Window.live_earlier (h : w.live later k = some t) (hle : now ≤ later) :
    w.live now k = some t := by
  rw [live_eq_some] at h ⊢
  exact ⟨h.1, by omega⟩

theorem find_forget (l : List (κ × ℕ)) {k k' : κ} (h : k' ≠ k) :
    find (forget l k) k' = find l k' := by
  induction l with
  | nil => rfl
  | cons e l ih =>
    by_cases hek : e.1 = k
    · rw [forget, List.filter_cons_of_neg (by simpa using hek)]
      rw [show e = (e.1, e.2) from rfl, find_cons_of_ne l (fun he => h (he.symm.trans hek))]
      exact ih
    · rw [forget, List.filter_cons_of_pos (by simpa using hek)]
      by_cases hek' : e.1 = k'
      · simp [find, hek']
      · rw [show e = (e.1, e.2) from rfl, find_cons_of_ne _ hek', find_cons_of_ne _ hek']
        exact ih

/-- What is forgotten as expired was not live. -/
theorem Window.live_expire (hkeys : (w.seen.map (·.1)).Nodup) (hle : now ≤ later) :
    (w.expire now).live later k = w.live later k := by
  ext t
  rw [live_eq_some, live_eq_some, w.expire_ttl]
  refine and_congr_left fun hlive => ?_
  unfold Window.expire
  split_ifs
  · have hkeys' := hkeys.sublist
      ((List.filter_sublist (p := fun e : κ × ℕ => now - e.2 < w.ttl)).map (·.1))
    constructor
    · exact fun h => find_of_mem hkeys (List.mem_filter.1 (mem_of_find h)).1
    · intro h
      refine find_of_mem hkeys' (List.mem_filter.2 ⟨mem_of_find h, ?_⟩)
      simp only [decide_eq_true_eq]
      omega
  · rfl

/-- A key is repeated exactly if it is live. -/
theorem Window.touch_repeats (hkeys : (w.seen.map (·.1)).Nodup) :
    (w.touch now k).1 = (w.live now k).isSome := by
  rw [← live_expire hkeys le_rfl]
  unfold Window.touch Window.live
  simp only []
  cases find (w.expire now).seen k with
  | none => rfl
  | some t => by_cases hage : now - t < w.ttl <;> simp [hage]

/-- While there is room, only the key that is let through becomes live. -/
theorem Window.touch_live (hkeys : (w.seen.map (·.1)).Nodup) (hroom : w.seen.length < w.capacity)
    (hle : now ≤ later) (k' : κ) :
    (w.touch now k).2.live later k' =
      if k' = k ∧ w.live now k = none then if later - now < w.ttl then some now else none
      else w.live later k' := by
  have hlen : (w.expire now).seen.length ≤ w.seen.length := by
    unfold Window.expire
    split_ifs
    · exact List.length_filter_le _ _
    · exact le_rfl
  have hevict : (w.expire now).evict = w.expire now := by
    rw [Window.evict, if_neg]
    rw [w.expire_capacity]
    omega
  have hput : ((w.expire now).put now k).live later k' =
      if k' = k then if later - now < w.ttl then some now else none else w.live later k' := by
    by_cases hk : k' = k
    · subst hk
      simp [Window.live, Window.put, find_cons_self, Option.filter]
    · rw [if_neg hk, ← live_expire hkeys hle]
      simp [Window.live, Window.put, find_cons_of_ne _ (Ne.symm hk), find_forget _ hk]
  rw [← live_expire (k := k) hkeys (le_refl now)]
  unfold Window.touch
  simp only [hevict]
  cases hfind : find (w.expire now).seen k with
  | none =>
    have hnone : (w.expire now).live now k = none := by simp [Window.live, hfind]
    simp only [hput, hnone, and_true]
  | some t =>
    by_cases hage : now - t < w.ttl
    · have hsome : (w.expire now).live now k = some t := live_eq_some.2 ⟨hfind, by simpa using hage⟩
      simp [hage, hsome, live_expire hkeys hle]
    · have hnone : (w.expire now).live now k = none := by
        simpa [Window.live, hfind] using hage
      simp only [hnone, and_true, Window.expire_ttl, hage, if_false, hput]

theorem Window.touch_keys (hkeys : (w.seen.map (·.1)).Nodup) (hpos : 0 < w.capacity) :
    ((w.touch now k).2.seen.map (·.1)).Nodup := by
  have hexpire : ((w.expire now).seen.map (·.1)).Nodup := by
    unfold Window.expire
    split_ifs
    · exact hkeys.sublist (List.filter_sublist.map _)
    · exact hkeys
  have hput : (((w.expire now).evict.put now k).seen.map (·.1)).Nodup :=
    Window.put_keys hexpire (by simpa using hpos) k
  unfold Window.touch
  simp only []
  split
  · split_ifs
    · exact hexpire
    · exact hput
  · exact hput

end Live

end Recency
