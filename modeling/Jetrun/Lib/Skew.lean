import Jetrun.Lib.Recency

/-!
# A window whose callers read the clock too early

A caller reads the clock, and only some time later it comes to ask the window. By then others may
have asked with later readings, so the readings do not grow from one call to the next, and a key may
be forgotten as expired, or as the oldest, that a call with an earlier reading still finds recent.

What remains is a bound: a key is not let through again as long as less than `ttl` has passed, from
the reading with which it was let through to the time of the call, and in that time fewer than
`capacity` other keys were let through.
-/

namespace Recency

variable {κ : Type*} [DecidableEq κ]

/-- A call: the clock as it was read for it, the time at which it was made, and the answer. -/
structure Ask (κ : Type*) where
  key : κ
  reading : ℕ
  time : ℕ
  repeated : Bool

/-- The window after some calls. -/
inductive Asked (w₀ : Window κ) : Window κ → List (Ask κ) → Prop
  | nil : Asked w₀ w₀ []
  | ask {w l c} (h : Asked w₀ w l) (hc : (w.touch c.reading c.key).1 = c.repeated) :
    Asked w₀ (w.touch c.reading c.key).2 (l ++ [c])

/-- The keys that were let through at `t` or later. -/
def throughFrom (l : List (Ask κ)) (t : ℕ) : Finset κ :=
  ((l.filter fun c => !c.repeated && decide (t ≤ c.time)).map (·.key)).toFinset

theorem mem_throughFrom {l : List (Ask κ)} {t : ℕ} {k : κ} :
    k ∈ throughFrom l t ↔ ∃ c ∈ l, c.repeated = false ∧ t ≤ c.time ∧ c.key = k := by
  simp [throughFrom, and_assoc]

theorem throughFrom_append (l l' : List (Ask κ)) (t : ℕ) :
    throughFrom (l ++ l') t = throughFrom l t ∪ throughFrom l' t := by
  simp [throughFrom, List.filter_append]

section Touch

variable {w : Window κ} {now t : ℕ} {k k' : κ}

omit [DecidableEq κ] in
theorem mem_expire (hmem : (k, t) ∈ w.seen) (hlive : now - t < w.ttl) :
    (k, t) ∈ (w.expire now).seen := by
  unfold Window.expire
  split_ifs
  · exact List.mem_filter.2 ⟨hmem, by simpa using hlive⟩
  · exact hmem

omit [DecidableEq κ] in
theorem expire_keys (hkeys : (w.seen.map (·.1)).Nodup) (now : ℕ) :
    ((w.expire now).seen.map (·.1)).Nodup := by
  unfold Window.expire
  split_ifs
  · exact hkeys.sublist (List.filter_sublist.map _)
  · exact hkeys

/-- A key is repeated if it is live, and let through if it is not. -/
theorem touch_cases (hkeys : (w.seen.map (·.1)).Nodup) (now : ℕ) (k : κ) :
    (∃ t, (k, t) ∈ w.seen ∧ now - t < w.ttl ∧ w.touch now k = (true, w.expire now)) ∨
      (∀ t, (k, t) ∈ (w.expire now).seen → w.ttl ≤ now - t) ∧
        w.touch now k = (false, (w.expire now).evict.put now k) := by
  unfold Window.touch
  rcases hf : find (w.expire now).seen k with _ | t
  · exact .inr ⟨fun t ht => absurd rfl (find_eq_none.1 hf _ ht), by simp [hf]⟩
  · have hmem := mem_of_find hf
    by_cases hlive : now - t < w.ttl
    · exact .inl ⟨t, w.expire_subset now hmem, hlive, by simp [hf, hlive]⟩
    · refine .inr ⟨fun t' ht' => ?_, by simp [hf, hlive]⟩
      rw [key_inj (expire_keys hkeys now) ht' hmem]
      omega

/-- The keys that the window remembers from `t` or later. -/
def seenFrom (w : Window κ) (t : ℕ) : Finset κ :=
  ((w.seen.filter fun e => decide (t ≤ e.2)).map (·.1)).toFinset

theorem mem_seenFrom : k ∈ seenFrom w t ↔ ∃ t', (k, t') ∈ w.seen ∧ t ≤ t' := by
  simp [seenFrom]

/-- A window that is full of keys no older than `k` remembers as many others, if one that is not
among them is counted. -/
theorem crowd_card (hkeys : (w.seen.map (·.1)).Nodup) (hfull : w.capacity ≤ w.seen.length)
    (hmem : (k, t) ∈ w.seen) (hold : ∀ e ∈ w.seen, t ≤ e.2) (hnew : ∀ t', (k', t') ∉ w.seen) :
    w.capacity ≤ ((insert k' (seenFrom w t)).erase k).card := by
  have hall : seenFrom w t = (w.seen.map (·.1)).toFinset := by
    unfold seenFrom
    rw [List.filter_eq_self.2 fun e he => by simpa using hold e he]
  have hk' : k' ∉ seenFrom w t := fun hk' => by
    obtain ⟨t', ht', -⟩ := mem_seenFrom.1 hk'
    exact hnew t' ht'
  have hk : k ∈ insert k' (seenFrom w t) :=
    Finset.mem_insert_of_mem (mem_seenFrom.2 ⟨t, hmem, le_rfl⟩)
  rw [Finset.card_erase_of_mem hk, Finset.card_insert_of_notMem hk', hall,
    List.toFinset_card_of_nodup hkeys, List.length_map]
  omega

/-- A live key is forgotten only for one that is let through, by a window full of keys that are no
older. -/
theorem touch_kept (hkeys : (w.seen.map (·.1)).Nodup) (hpos : 0 < w.capacity)
    (hmem : (k, t) ∈ w.seen) (hlive : now - t < w.ttl) (k' : κ) :
    (k, t) ∈ (w.touch now k').2.seen ∨ (w.touch now k').1 = false ∧
      w.capacity ≤ ((insert k' (seenFrom w t)).erase k).card := by
  have hmem' := mem_expire hmem hlive
  have hkeys' := expire_keys hkeys now
  rcases touch_cases hkeys now k' with ⟨t', -, -, h⟩ | ⟨hdead, h⟩ <;> rw [h]
  · exact .inl hmem'
  have hne : k ≠ k' := by
    rintro rfl
    have := hdead t hmem'
    omega
  rcases (w.expire now).evict_cases (by simpa using hpos) with
    ⟨-, he⟩ | ⟨hfull, oldest, holdest, hmin, he⟩ <;> simp only [he]
  · exact .inl (List.mem_cons_of_mem _ (mem_forget.2 ⟨hmem', hne⟩))
  by_cases hk : k = oldest.1
  · refine .inr ⟨trivial, ?_⟩
    have htime : oldest.2 = t := key_inj hkeys' (hk ▸ holdest) hmem'
    have hold : ∀ e ∈ (w.expire now).seen, t ≤ e.2 := fun e he => htime ▸ hmin e he
    have hnew : ∀ t', (k', t') ∉ (w.expire now).seen := fun t' ht' => by
      have h1 : t ≤ t' := hold _ ht'
      have h2 := hdead t' ht'
      omega
    have hcrowd := crowd_card hkeys' hfull hmem' hold hnew
    rw [w.expire_capacity] at hcrowd
    refine hcrowd.trans (Finset.card_le_card (Finset.erase_subset_erase _
      (Finset.insert_subset_insert _ fun x hx => ?_)))
    obtain ⟨t', ht', hle⟩ := mem_seenFrom.1 hx
    exact mem_seenFrom.2 ⟨t', w.expire_subset now ht', hle⟩
  · exact .inl (List.mem_cons_of_mem _ (mem_forget.2 ⟨mem_forget.2 ⟨hmem', hk⟩, hne⟩))

end Touch

section Asked

variable {w w₀ : Window κ} {l : List (Ask κ)}

/-- What a window remembers was let through, with the reading that it remembers. -/
structure Known (w₀ w : Window κ) (l : List (Ask κ)) : Prop where
  ttl_eq : w.ttl = w₀.ttl
  capacity_eq : w.capacity = w₀.capacity
  keys : (w.seen.map (·.1)).Nodup
  source : ∀ e ∈ w.seen, ∃ c ∈ l, c.repeated = false ∧ c.key = e.1 ∧ c.reading = e.2

theorem Asked.known (h : Asked w₀ w l) (hempty : w₀.seen = []) (hpos : 0 < w₀.capacity) :
    Known w₀ w l := by
  induction h with
  | nil => exact ⟨rfl, rfl, by simp [hempty], by simp [hempty]⟩
  | @ask w l c h hc ih =>
    have hroom : 0 < w.capacity := by rwa [ih.capacity_eq]
    refine ⟨by simp [ih.ttl_eq], by simp [ih.capacity_eq], Window.touch_keys ih.keys hroom,
      fun e he => ?_⟩
    rcases w.touch_seen hroom c.reading c.key e he with hold | ⟨hnew, rfl⟩
    · obtain ⟨d, hd, hsource⟩ := ih.source e hold
      exact ⟨d, List.mem_append_left _ hd, hsource⟩
    · exact ⟨c, by simp, hc ▸ hnew, rfl, rfl⟩

theorem Asked.last {c : Ask κ} (h : Asked w₀ w (l ++ [c])) : ∃ w₁, Asked w₀ w₁ l ∧
    (w₁.touch c.reading c.key).1 = c.repeated ∧ w = (w₁.touch c.reading c.key).2 := by
  generalize hl : l ++ [c] = l' at h
  cases h with
  | nil => simp at hl
  | ask h hc =>
    obtain ⟨rfl, hone⟩ := List.append_inj' hl rfl
    cases hone
    exact ⟨_, h, hc, rfl⟩

theorem Asked.cut : ∀ {l₂ : List (Ask κ)} {w : Window κ}, Asked w₀ w (l ++ l₂) →
    ∃ w₁, Asked w₀ w₁ l := by
  intro l₂
  induction l₂ using List.reverseRecOn with
  | nil => exact fun h => ⟨_, by simpa using h⟩
  | append_singleton l₂ c ih =>
    intro w h
    rw [← List.append_assoc] at h
    obtain ⟨_, hasked, -⟩ := h.last
    exact ih hasked

/-- No call is made before the clock is read for it, and calls are made one after the other. -/
structure Timely (l : List (Ask κ)) : Prop where
  read : ∀ c ∈ l, c.reading ≤ c.time
  order : l.Pairwise fun c d => c.time ≤ d.time

omit [DecidableEq κ] in
theorem Timely.append_left {l l' : List (Ask κ)} (h : Timely (l ++ l')) : Timely l :=
  ⟨fun c hc => h.read c (List.mem_append_left _ hc), (List.pairwise_append.1 h.order).1⟩

/-- What the window remembers from `t` on was let through at `t` or later. -/
theorem Known.seenFrom_subset (h : Known w₀ w l) (hl : Timely l) (t : ℕ) :
    seenFrom w t ⊆ throughFrom l t := by
  intro k hk
  obtain ⟨t', hmem, hle⟩ := mem_seenFrom.1 hk
  obtain ⟨c, hc, hnew, hkey, htime⟩ := h.source _ hmem
  have := hl.read c hc
  exact mem_throughFrom.2 ⟨c, hc, hnew, by simp only [] at htime; omega, hkey⟩

/-- A key that was let through is remembered while calls read less than `ttl` more, unless as many
other keys as there is room for were let through. -/
theorem Asked.remembers {before : List (Ask κ)} {a : Ask κ} (hempty : w₀.seen = [])
    (hpos : 0 < w₀.capacity) (hnew : a.repeated = false) :
    ∀ {between : List (Ask κ)} {w : Window κ},
    Asked w₀ w (before ++ a :: between) → Timely (before ++ a :: between) →
    (∀ c ∈ between, c.reading - a.reading < w₀.ttl) →
    (a.key, a.reading) ∈ w.seen ∨
      w₀.capacity ≤ ((throughFrom (before ++ a :: between) a.reading).erase a.key).card := by
  intro between
  induction between using List.reverseRecOn with
  | nil =>
    intro w h _ _
    obtain ⟨w₁, hasked, hc, rfl⟩ := h.last
    have hk := hasked.known hempty hpos
    rcases touch_cases hk.keys a.reading a.key with ⟨t, -, -, htouch⟩ | ⟨-, htouch⟩
    · rw [htouch, hnew] at hc
      cases hc
    · exact .inl (by rw [htouch]; exact List.mem_cons_self)
  | append_singleton between c ih =>
    intro w h hl hage
    rw [← List.cons_append, ← List.append_assoc] at h hl ⊢
    obtain ⟨w₁, hasked, hc, rfl⟩ := h.last
    have hk := hasked.known hempty hpos
    have hgrow : throughFrom (before ++ a :: between) a.reading ⊆
        throughFrom (before ++ a :: between ++ [c]) a.reading := by
      rw [throughFrom_append (before ++ a :: between) [c]]
      exact Finset.subset_union_left
    have hcard {ks : Finset κ} (hks : ks ⊆ throughFrom (before ++ a :: between ++ [c]) a.reading) :
        (ks.erase a.key).card ≤
          ((throughFrom (before ++ a :: between ++ [c]) a.reading).erase a.key).card :=
      Finset.card_le_card (Finset.erase_subset_erase _ hks)
    rcases ih hasked hl.append_left fun d hd => hage d (by simp [hd]) with hmem | hcrowd
    · rcases touch_kept hk.keys (hk.capacity_eq ▸ hpos) hmem (hk.ttl_eq ▸ hage c (by simp)) c.key
        with hstay | ⟨hlet, hcrowd⟩
      · exact .inl hstay
      · rw [hk.capacity_eq] at hcrowd
        have hac := (List.pairwise_append.1 hl.order).2.2 a (by simp) c (by simp)
        have hthrough : c.key ∈ throughFrom (before ++ a :: between ++ [c]) a.reading :=
          mem_throughFrom.2 ⟨c, by simp, hc ▸ hlet, (hl.read a (by simp)).trans hac, rfl⟩
        exact .inr (hcrowd.trans (hcard (Finset.insert_subset hthrough
          ((hk.seenFrom_subset hl.append_left _).trans hgrow))))
    · exact .inr (hcrowd.trans (hcard hgrow))

/-- A key is repeated if less than `ttl` passed since the clock was read for the call that let it
through, and fewer than `capacity` others were let through since. -/
theorem Asked.repeated_of_recent {before between : List (Ask κ)} {a b : Ask κ}
    (h : Asked w₀ w (before ++ a :: between ++ [b])) (hempty : w₀.seen = [])
    (hpos : 0 < w₀.capacity) (hl : Timely (before ++ a :: between ++ [b]))
    (hnew : a.repeated = false) (hkey : b.key = a.key) (hage : b.time - a.reading < w₀.ttl)
    (hfew : ((throughFrom (before ++ a :: between) a.reading).erase a.key).card < w₀.capacity) :
    b.repeated = true := by
  obtain ⟨w₁, hasked, hc, rfl⟩ := h.last
  have hk := hasked.known hempty hpos
  have hread (c : Ask κ) (hcm : c ∈ before ++ a :: between) : c.reading - a.reading < w₀.ttl := by
    have h1 := (List.pairwise_append.1 hl.order).2.2 c hcm b (by simp)
    have h2 := hl.read c (List.mem_append_left _ hcm)
    omega
  rcases hasked.remembers hempty hpos hnew hl.append_left (fun c hcm => hread c (by simp [hcm]))
    with hmem | hcrowd
  · have hlive : b.reading - a.reading < w₁.ttl := by
      have := hl.read b (by simp)
      rw [hk.ttl_eq]
      omega
    rcases touch_cases hk.keys b.reading b.key with ⟨t, -, -, htouch⟩ | ⟨hdead, -⟩
    · rw [← hc, htouch]
    · have := hdead a.reading (mem_expire (hkey ▸ hmem) hlive)
      omega
  · omega

end Asked

end Recency
