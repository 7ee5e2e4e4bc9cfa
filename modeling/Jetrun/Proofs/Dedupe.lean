import Jetrun.Dedupe
import Jetrun.Proofs.Http

/-!
# The guard is an exact window

The table of the guard forgets late and by halves, but what it answers is what the calls before say:
an id is a repeat exactly if it was let through less than `ttl` ago, with fewer than `capacity`
others since (`window_exact`).
-/

namespace Jetrun

namespace DeliveryGuard

section History

variable {log : List (Call × Delivery)}

/-- What was let through, latest first. -/
def passed (log : List (Call × Delivery)) : List (String × ℕ) := (log.filterMap letThrough).reverse

theorem letThrough_eq_some {e : Call × Delivery} {id : String} {t : ℕ} :
    letThrough e = some (id, t) ↔ e = (⟨some id, t⟩, .fresh) := by
  obtain ⟨⟨id', now⟩, answer⟩ := e
  unfold letThrough
  split_ifs with hfresh
  · cases id' <;> simp_all
  · simp only [false_iff, Prod.mk.injEq, not_and]
    exact fun _ => hfresh

theorem passed_concat (log : List (Call × Delivery)) (e : Call × Delivery) :
    passed (log ++ [e]) = (letThrough e).toList ++ passed log := by
  unfold passed
  rw [List.filterMap_append, List.reverse_append]
  rcases he : letThrough e with _ | f <;> simp [he]

theorem readings_concat (log : List (Call × Delivery)) (e : Call × Delivery) :
    readings (log ++ [e]) = readings log ++ (reading e).toList := by
  unfold readings
  rw [List.filterMap_append]
  rcases he : reading e with _ | t <;> simp [he]

/-- The clock is read for what is let through. -/
theorem passed_reading {f : String × ℕ} (h : f ∈ passed log) : f.2 ∈ readings log := by
  obtain ⟨e, he, hf⟩ := List.mem_filterMap.1 (List.mem_reverse.1 h)
  obtain rfl := letThrough_eq_some.1 hf
  exact List.mem_filterMap.2 ⟨_, he, rfl⟩

/-- The window over the calls is the one over what was let through. -/
theorem inWindow_iff_recent {ttl capacity now : ℕ} {id : String}
    (hlog : (passed log).Pairwise fun f g => g.2 < f.2) :
    InWindow ttl capacity log now id ↔ Recency.Recent ttl capacity (passed log) now id := by
  rw [Recency.recent_iff_append hlog]
  constructor
  · rintro ⟨earlier, t, since, rfl, hnone, hlive, hcard⟩
    refine ⟨passed since, t, passed earlier, ?_, fun f hf hid => ?_, hlive, ?_⟩
    · simp [passed, letThrough, List.filterMap_append]
    · obtain ⟨e, he, hthrough⟩ := List.mem_filterMap.1 (List.mem_reverse.1 hf)
      obtain rfl := letThrough_eq_some.1 hthrough
      exact hnone _ he ⟨congrArg some hid, rfl⟩
    · simpa [passed, freshIds] using hcard
  · rintro ⟨l₁, t, l₂, hpassed, hnone, hlive, hcard⟩
    have hsplit : log.filterMap letThrough = l₂.reverse ++ (id, t) :: l₁.reverse := by
      rw [← List.reverse_inj, ← passed, hpassed]
      simp
    obtain ⟨older, newer, rfl, hold, hnew⟩ := List.filterMap_eq_append_iff.1 hsplit
    obtain ⟨skipped, e, since, rfl, -, he, hsince⟩ := List.filterMap_eq_cons_iff.1 hnew
    obtain rfl := letThrough_eq_some.1 he
    refine ⟨older ++ skipped, t, since, by simp, fun e he hfresh => ?_, hlive, ?_⟩
    · obtain ⟨⟨id', t'⟩, answer⟩ := e
      obtain ⟨rfl, rfl⟩ := hfresh
      refine hnone (id, t') ?_ rfl
      rw [← List.mem_reverse, ← hsince]
      exact List.mem_filterMap.2 ⟨_, he, rfl⟩
    · simpa [freshIds, hsince] using hcard

end History

section Runs

/-- The guard remembers what it let through, and has answered as the calls before say. -/
structure Mirrors (ttl capacity : ℕ) (s : Asked) : Prop where
  ttl_eq : s.guard.ttl = ttl
  capacity_eq : s.guard.capacity = capacity
  tracks : ∀ now, (∀ t ∈ readings s.log, t ≤ now) → Recency.Tracks s.guard (passed s.log) now
  exact : Runs.Throughout (Exact ttl capacity) s.log

variable {ttl capacity : ℕ} {s s' : Asked} {c : Call}

/-- A call that the guard has nothing to look for in. -/
theorem Mirrors.unread (hs : Mirrors ttl capacity s) (hnone : ∀ k, c.id = some k → ¬identifies k) :
    Mirrors ttl capacity ⟨s.guard, s.log ++ [(c, .unidentified)]⟩ := by
  refine ⟨hs.ttl_eq, hs.capacity_eq, fun now hnow => ?_, Runs.throughout_concat.2 ⟨hs.exact,
    fun id hid hkeeps _ => absurd hkeeps (hnone id hid),
    fun id hid hkeeps _ => absurd hkeeps (hnone id hid), fun _ => rfl⟩⟩
  rw [readings_concat, show reading (c, .unidentified) = none from rfl, Option.toList_none,
    List.append_nil] at hnow
  rw [passed_concat, show letThrough (c, .unidentified) = none from rfl, Option.toList_none,
    List.nil_append]
  exact hs.tracks now hnow

/-- A call that is made later than the others. -/
theorem Mirrors.read (hs : Mirrors ttl capacity s) (hpos : 0 < capacity) {k : String}
    (hid : c.id = some k) (hkeeps : identifies k) (hlater : ∀ t ∈ readings s.log, t < c.now) :
    Mirrors ttl capacity ⟨(s.guard.touch c.now k).2,
      s.log ++ [(c, if (s.guard.touch c.now k).1 then .duplicate else .fresh)]⟩ := by
  have horder := (hs.tracks c.now fun t ht => (hlater t ht).le).order
  obtain ⟨hverdict, htracks⟩ := Recency.Tracks.touch_later hs.tracks (fun _ => passed_reading)
    (hs.capacity_eq.symm ▸ hpos) hlater k
  rw [hs.ttl_eq, hs.capacity_eq, ← inWindow_iff_recent horder] at hverdict
  refine ⟨(Recency.Window.touch_ttl _ _ _).trans hs.ttl_eq,
    (Recency.Window.touch_capacity _ _ _).trans hs.capacity_eq, fun now hnow => ?_,
    Runs.throughout_concat.2 ⟨hs.exact, fun id hid' _ hin => ?_, fun id hid' _ hout => ?_,
      fun hnone => absurd hkeeps (hnone k hid)⟩⟩
  · have hpassed : passed (s.log ++ [(c, if (s.guard.touch c.now k).1 then .duplicate
        else .fresh)]) = if (s.guard.touch c.now k).1 then passed s.log
          else (k, c.now) :: passed s.log := by
      rw [passed_concat]
      unfold letThrough
      rw [hid]
      rcases (s.guard.touch c.now k).1 <;> rfl
    have hread : reading (c, if (s.guard.touch c.now k).1 then .duplicate else .fresh)
        = some c.now := by
      unfold reading
      rcases (s.guard.touch c.now k).1 <;> rfl
    rw [readings_concat, hread] at hnow
    rw [hpassed]
    exact htracks now hnow
  · obtain rfl : k = id := Option.some.inj (hid.symm.trans hid')
    exact if_pos (hverdict.2 hin)
  · obtain rfl : k = id := Option.some.inj (hid.symm.trans hid')
    exact if_neg fun hyes => hout (hverdict.1 hyes)

theorem mirrors_step (hpos : 0 < capacity) (s : Asked) (c : Call) (s' : Asked)
    (hs : (readings s.log).Pairwise (· < ·) → Mirrors ttl capacity s)
    (h : ask s c = some s') (hclock : (readings s'.log).Pairwise (· < ·)) :
    Mirrors ttl capacity s' := by
  obtain rfl : (⟨(s.guard.check c.id c.now).2,
      s.log ++ [(c, (s.guard.check c.id c.now).1)]⟩ : Asked) = s' := Option.some.inj h
  rw [readings_concat, List.pairwise_append] at hclock
  obtain ⟨hold, -, hlater⟩ := hclock
  have hw := hs hold
  rcases s.guard.check_cases c.id c.now with ⟨k, hid, hkeeps, hcheck⟩ | ⟨hnone, hcheck⟩
  · rw [hcheck] at hlater ⊢
    refine hw.read hpos hid hkeeps fun t ht => hlater t ht c.now ?_
    unfold reading
    rcases (s.guard.touch c.now k).1 <;> simp
  · rw [hcheck]
    exact hw.unread hnone

/-- The log is of the calls that were made. -/
theorem exec_log : ∀ {calls : List Call} {s s' : Asked}, Runs.exec ask s calls = some s' →
    s'.log.map (·.1) = s.log.map (·.1) ++ calls
  | [], s, s', h => by
    cases h
    rw [List.append_nil]
  | c :: calls, s, s', h => by
    have hask : ask s c = some ⟨(s.guard.check c.id c.now).2,
        s.log ++ [(c, (s.guard.check c.id c.now).1)]⟩ := rfl
    rw [Runs.exec_cons hask] at h
    rw [exec_log h, List.map_append, List.append_assoc]
    rfl

/-- In every run, while the clock goes forward: the guard answers as the calls before say, remembers
no more ids than it has room for, and is left as it was by a call without an id. -/
theorem window_exact {calls : List Call}
    (h : Runs.exec ask ⟨.new ttl capacity, []⟩ calls = some s)
    (hclock : (readings s.log).Pairwise (· < ·)) :
    s.log.map (·.1) = calls ∧ Runs.Throughout (Exact ttl (max capacity 1)) s.log ∧
      s.guard.seen.length ≤ max capacity 1 ∧
      ∀ id now, (∀ k, id = some k → ¬identifies k) →
        s.guard.check id now = (.unidentified, s.guard) := by
  have hpos : 0 < max capacity 1 := Nat.lt_of_lt_of_le Nat.one_pos (le_max_right _ _)
  have hmirrors : (readings s.log).Pairwise (· < ·) → Mirrors ttl (max capacity 1) s := by
    refine Runs.exec_keeps (fun s c s' hs _ hstep => mirrors_step hpos s c s' hs hstep) ?_
      (Runs.allSteps_of_forall (fun _ _ => trivial) calls _) h
    exact fun _ => ⟨rfl, rfl, fun now _ => Recency.tracks_empty ttl (max capacity 1) now,
      Runs.throughout_nil _⟩
  have hw := hmirrors hclock
  obtain ⟨latest, hlatest⟩ : ∃ latest, ∀ t ∈ readings s.log, t ≤ latest :=
    ⟨(readings s.log).foldr max 0, fun t ht => List.le_max_of_le ht le_rfl⟩
  refine ⟨exec_log h, hw.exact, (hw.tracks latest hlatest).size.trans hw.capacity_eq.le,
    fun id now hnone => ?_⟩
  rcases s.guard.check_cases id now with ⟨k, hid, hkeeps, -⟩ | ⟨-, hcheck⟩
  · exact absurd hkeeps (hnone k hid)
  · exact hcheck

/-- Room for one id: a second one makes the guard forget the first. -/
def sampleCalls : List Call :=
  [⟨some "a", 0⟩, ⟨some "a", 1⟩, ⟨none, 2⟩, ⟨some "b", 3⟩, ⟨some "a", 4⟩]

theorem sample_window : ∃ s, Runs.exec ask ⟨.new 10 0, []⟩ sampleCalls = some s ∧
    s.log.map (·.2) = [.fresh, .duplicate, .unidentified, .fresh, .fresh] ∧
    Runs.Throughout (Exact 10 1) s.log := by
  obtain ⟨s, hs⟩ : ∃ s, Runs.exec ask ⟨.new 10 0, []⟩ sampleCalls = some s :=
    Option.isSome_iff_exists.1 (by decide +kernel)
  have hlog : (Runs.exec ask ⟨.new 10 0, []⟩ sampleCalls).map (fun s => s.log.map (·.2))
      = some [.fresh, .duplicate, .unidentified, .fresh, .fresh] := by decide +kernel
  have hreadings : (Runs.exec ask ⟨.new 10 0, []⟩ sampleCalls).map (fun s => readings s.log)
      = some [0, 1, 3, 4] := by decide +kernel
  rw [hs, Option.map_some, Option.some.injEq] at hlog hreadings
  have hexact : Runs.Throughout (Exact 10 (max 0 1)) s.log :=
    (window_exact hs (by rw [hreadings]; decide)).2.1
  exact ⟨s, hs, hlog, hexact⟩

end Runs

end DeliveryGuard

end Jetrun
