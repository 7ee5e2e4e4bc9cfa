import Jetrun.Ledger
import Jetrun.Proofs.RoundTrip
import Jetrun.Proofs.Sweep

/-!
# What a store keeps over a run

Whatever fails in the operations of a run, every object is sealed and holds what was put under its
digest, and what a put answered for is there until a collection removes it.
-/

namespace Jetrun

open Traced Volumes Volumes.Volume

namespace Ledger

open ObjectStore Machine Storing

variable {b3 : Blake3} {st : ObjectStore} {s : Ledger}

/-- What is put from and written to is outside of the store. Others do not touch the store, nor the
content of its files, and give its staging files no second name. -/
def Apart (st : ObjectStore) (s : Ledger) : Op → Prop
  | .putFile path => ¬st.Inside path
  | .ingestDir _ dir => st.Clear dir
  | .materializeTree _ _ dest => ¬st.Inside dest
  | .others v => Beside (¬st.Inside ·) s.volume v ∧ ∀ d, Owned v (st.stagingPath d)
  | _ => True

/-- The store holds what the ledger says. -/
structure Kept (b3 : Blake3) (st : ObjectStore) (s : Ledger) : Prop where
  sound : Sound st (Named b3 (· ∈ s.asked)) s.volume
  answered : ∀ r ∈ s.answered, r ∈ s.asked ∧ s.volume.find (st.objectPath (r.digest b3)) ≠ none

section Events

variable {r : Request} {trace : List StoreEvent}

theorem mem_puts : r ∈ StoreEvent.puts trace ↔ .put r ∈ trace := by
  unfold StoreEvent.puts
  rw [List.mem_filterMap]
  constructor
  · rintro ⟨e, he, hr⟩
    cases e with
    | put r' => cases hr; exact he
    | _ => cases hr
  · exact fun h => ⟨_, h, rfl⟩

theorem mem_answers : r ∈ StoreEvent.answers trace ↔ .stored r ∈ trace := by
  unfold StoreEvent.answers
  rw [List.mem_filterMap]
  constructor
  · rintro ⟨e, he, hr⟩
    cases e with
    | stored r' => cases hr; exact he
    | _ => cases hr
  · exact fun h => ⟨_, h, rfl⟩

end Events

/-- What one step does to the objects: more may have been asked for, and none is lost but to a
collection. -/
structure Steps (b3 : Blake3) (st : ObjectStore) (s : Ledger) (op : Op) (s' : Ledger) : Prop where
  kept : Kept b3 st s'
  asked : ∀ r ∈ s.asked, r ∈ s'.asked
  there : ∀ d, s.volume.find (st.objectPath d) ≠ none →
    s'.volume.find (st.objectPath d) ≠ none ∨ ∃ turns roots minAge, op = .gc turns roots minAge

section Enter

variable {α : Type} {o : Outcome (Link.Session Machine) Stop StoreEvent α} {op : Op}

theorem named_append (l : List Request) (d : Digest) (c : List UInt8)
    (h : Named b3 (· ∈ s.asked) d c) : Named b3 (· ∈ s.asked ++ l) d c := by
  obtain ⟨r, hr, hd⟩ := h
  exact ⟨r, List.mem_append_left _ hr, hd⟩

variable (s o) in
theorem putsOnly_enter : PutsOnly (· ∈ (s.enter o).asked) o.trace := fun _ hr =>
  List.mem_append_right _ (mem_puts.2 hr)

theorem Kept.enter {own : Path → Prop} (h : Kept b3 st s)
    (ho : Served b3 st (· ∈ (s.enter o).asked) own s.session.os [] o.world o.trace) :
    Steps b3 st s op (s.enter o) where
  kept := by
    refine ⟨ho.sound, fun r hr => ?_⟩
    rcases List.mem_append.1 hr with hr | hr
    · obtain ⟨hasked, hthere⟩ := h.answered r hr
      exact ⟨List.mem_append_left _ hasked, ho.kept _ hthere⟩
    · rcases ho.stored r (mem_answers.1 hr) with hnil | hstored
      · cases hnil
      · exact hstored
  asked _ hr := List.mem_append_left _ hr
  there d hd := .inl (ho.kept d hd)

/-- What puts nothing and loses nothing. -/
theorem Kept.silent (h : Kept b3 st s) (htrace : o.trace = [])
    (hs : Sound st (Named b3 (· ∈ s.asked)) o.world.os.volume)
    (hthere : ∀ d, s.volume.find (st.objectPath d) ≠ none →
      o.world.os.volume.find (st.objectPath d) ≠ none) : Steps b3 st s op (s.enter o) where
  kept := by
    refine ⟨hs.mono (named_append _), fun r hr => ?_⟩
    have hold : r ∈ s.answered := by
      refine (List.mem_append.1 hr).resolve_right fun hnew => ?_
      rw [mem_answers, htrace] at hnew
      cases hnew
    obtain ⟨hasked, hthere'⟩ := h.answered r hold
    exact ⟨List.mem_append_left _ hasked, hthere _ hthere'⟩
  asked _ hr := List.mem_append_left _ hr
  there d hd := .inl (hthere d hd)

@[simp] theorem asked_root (s : Ledger) (result : Except Stop Digest) :
    (s.root result).asked = s.asked := by
  cases result with
  | error e => rfl
  | ok d => rfl

theorem session_root (s : Ledger) (result : Except Stop Digest) :
    (s.root result).session = s.session := by
  cases result with
  | error e => rfl
  | ok d => rfl

theorem session_ingestDir (s : Ledger) (stack : ℕ) (dir : Path) :
    (s.after b3 st (.ingestDir stack dir)).session
      = (Storing.ingestDir b3 st stack dir s.session).world :=
  session_root _ _

theorem asked_ingestDir (s : Ledger) (stack : ℕ) (dir : Path) :
    (s.after b3 st (.ingestDir stack dir)).asked
      = s.asked ++ StoreEvent.puts (Storing.ingestDir b3 st stack dir s.session).trace :=
  asked_root _ _

theorem Steps.root (h : Steps b3 st s op (s.enter o)) (result : Except Stop Digest) :
    Steps b3 st s op ((s.enter o).root result) := by
  cases result with
  | error e => exact h
  | ok d => exact ⟨⟨h.kept.sound, h.kept.answered⟩, h.asked, h.there⟩

end Enter

section Step

/-- Others who keep away from the store leave it sound. -/
theorem Sound.others {N : Digest → List UInt8 → Prop} {v v' : Volume String} (h : Sound st N v)
    (hb : Beside (¬st.Inside ·) v v') (hown : ∀ d, Owned v' (st.stagingPath d)) : Sound st N v' := by
  have hfind : ∀ {p}, st.Inside p → v'.find p = v.find p := fun hp => hb.find (not_not_intro hp)
  have hobject : ∀ d, st.Inside (st.objectPath d) := fun d => slot_inside (.inr (.inl rfl))
  refine ⟨?_, ?_, fun d e he => ?_, fun d e he => ?_, fun d e he => ?_, hown⟩
  · rw [hb.isDir (not_not_intro ⟨_, st.root_push_eq.2.symm⟩)]
    exact h.tmp_dir
  · rw [hb.isDir (not_not_intro ⟨_, st.root_push_eq.1.symm⟩)]
    exact h.objects_dir
  · rw [hfind (slot_inside (.inr (.inr rfl)))] at he
    exact h.fanout d e he
  · rw [hfind (hobject d)] at he
    obtain ⟨i, rfl, hi⟩ := h.object d e he
    rw [← hb.inode (not_not_intro (hobject d)) he] at hi
    exact ⟨i, rfl, hi⟩
  · rw [hfind (slot_inside (.inl rfl))] at he
    exact h.staged d e he

/-- What one operation does, whatever fails in it. -/
theorem Kept.after (h : Kept b3 st s) {op : Op} (hop : Apart st s op) :
    Steps b3 st s op (s.after b3 st op) := by
  have hsound : ∀ l, Sound st (Named b3 (· ∈ s.asked ++ l)) s.volume := fun l =>
    h.sound.mono (named_append l)
  cases op with
  | putBytes bytes =>
    have hend := Leads.ends (putContent_leads (hsound _) fun hr => hr _ rfl)
      (putsOnly_enter s (Storing.putContent b3 st (.bytes bytes) s.session))
    exact h.enter hend.1
  | putFile path =>
    obtain ⟨d, hserved, -⟩ := Leads.ends (putFile_leads (hsound _) (fun r hr => hr r rfl) hop)
      (putsOnly_enter s (Storing.putFile b3 st path s.session))
    exact h.enter hserved
  | putTree tree =>
    have hend := Leads.ends (putContent_leads (hsound _) fun hr => hr _ rfl)
      (putsOnly_enter s (Storing.putContent b3 st (.tree tree) s.session))
    exact h.enter hend.1
  | ingestDir stack dir =>
    have hend := ingestDir_ends (hsound _) hop
      (putsOnly_enter s (Storing.ingestDir b3 st stack dir s.session))
    exact (h.enter hend.served).root _
  | materializeTree intent d dest =>
    obtain ⟨-, hs, -, hsame, -⟩ := materializeTree_ends b3 d intent h.sound hop
    exact h.silent rfl hs fun d hd => by rwa [hsame.find d]
  | gc turns roots minAge =>
    obtain ⟨live, hsweep, -⟩ := gc_ends b3 st minAge roots turns (w := s.session)
    refine ⟨⟨(Sound.pruned h.sound hsweep.pruned).mono (named_append _), fun r hr => ?_⟩,
      fun _ hr => List.mem_append_left _ hr, fun _ _ => .inr ⟨turns, roots, minAge, rfl⟩⟩
    obtain ⟨hmem, hthere⟩ := List.mem_filter.1 hr
    refine ⟨?_, Option.isSome_iff_ne_none.1 hthere⟩
    rcases List.mem_append.1 hmem with hold | hnew
    · exact List.mem_append_left _ (h.answered r hold).1
    · rw [mem_answers, hsweep.silent] at hnew
      cases hnew
  | others v =>
    have hfind : ∀ d, v.find (st.objectPath d) = s.volume.find (st.objectPath d) := fun d =>
      hop.1.find (not_not_intro (slot_inside (.inr (.inl rfl))))
    refine ⟨⟨Sound.others h.sound hop.1 hop.2, fun r hr => ?_⟩, fun _ hr => hr, fun d hd => .inl ?_⟩
    · obtain ⟨hasked, hthere⟩ := h.answered r hr
      exact ⟨hasked, (hfind _).trans_ne hthere⟩
    · exact (hfind d).trans_ne hd

theorem kept_new {w : Link.Session Machine} (h : Unused st w.os.volume) :
    Kept b3 st (.new w) :=
  ⟨h.sound, fun r hr => by cases hr⟩

theorem Kept.visits {ops : List Op} {s' : Ledger} (h : Kept b3 st s)
    (hapart : Runs.AllSteps (step b3 st) (Apart st) s ops)
    (hvisits : Runs.Visits (step b3 st) s ops s') : Kept b3 st s' :=
  Runs.visited_keeps (fun _ _ _ hk hop hs => Option.some.inj hs ▸ (hk.after hop).kept) h hapart
    hvisits

/-- The part of a directory's ingest that stores the manifest. -/
theorem ingestDir_answers {S : Request → Prop} {w : Link.Session Machine} {stack : ℕ} {dir : Path}
    {d : Digest} (hs : Sound st (Named b3 S) w.os.volume) (hdir : st.Clear dir)
    (hput : PutsOnly S (Storing.ingestDir b3 st stack dir w).trace)
    (hok : (Storing.ingestDir b3 st stack dir w).result = .ok d) :
    ∃ t, Describes b3 stack (view w.os.volume dir) t ∧ t.digest b3 = d ∧
      .stored (.tree t) ∈ (Storing.ingestDir b3 st stack dir w).trace := by
  have hleads : Leads (fun e => ∀ r, e = .put r → S r) (Storing.ingestDir b3 st stack dir)
      (fun r _ h => ∀ d, r = .ok d → ∃ t, Describes b3 stack (view w.os.volume dir) t ∧
        t.digest b3 = d ∧ .stored (.tree t) ∈ h) w [] := by
    have hok : ∀ r, (∀ r', StoreEvent.put r = .put r' → S r') → S r := fun r hr => hr r rfl
    refine leads_bind ((ingestDirInner_leads hok stack dir w [] hdir (.start hs)).mono ?_)
    rintro (e | t) w' h' hend
    · exact fun _ h => by cases h
    · obtain ⟨hwalk, ht, -⟩ := hend
      refine (putContent_leads hwalk.served.sound (hok _)).mono ?_
      rintro (e | d) w'' h'' ⟨-, hres⟩ d' hd'
      · cases hd'
      · cases hd'
        exact ⟨t, ht, hres.1.symm, hres.2.2.2.2⟩
  exact Leads.ends hleads hput d hok

/-- A put that returns has answered for what it was given. -/
theorem Kept.answers (h : Kept b3 st s) {op : Op} {d : Digest} (hop : Apart st s op)
    (hd : s.returned b3 st op = some d) :
    ∃ r ∈ (s.after b3 st op).answered, s.Given b3 op r ∧ r.digest b3 = d := by
  have hsound : ∀ l, Sound st (Named b3 (· ∈ s.asked ++ l)) s.volume := fun l =>
    h.sound.mono (named_append l)
  have hcontent : ∀ r, (Storing.putContent b3 st r s.session).result.toOption = some d →
      r ∈ (s.enter (Storing.putContent b3 st r s.session)).answered ∧ r.digest b3 = d := by
    intro r hr
    have hend := (Leads.ends (putContent_leads (hsound _) fun hr => hr _ rfl)
      (putsOnly_enter s (Storing.putContent b3 st r s.session))).2
    rw [toOption_eq_some.1 hr] at hend
    exact ⟨List.mem_append_right _ (mem_answers.2 hend.2.2.2.2), hend.1.symm⟩
  cases op with
  | putBytes bytes => exact ⟨_, (hcontent _ hd).1, rfl, (hcontent _ hd).2⟩
  | putFile path =>
    obtain ⟨⟨d', size⟩, hres, rfl⟩ := Option.map_eq_some_iff.1 hd
    obtain ⟨d, -, hend⟩ := Leads.ends (putFile_leads (hsound _) (fun r hr => hr r rfl) hop)
      (putsOnly_enter s (Storing.putFile b3 st path s.session))
    rw [toOption_eq_some.1 hres] at hend
    obtain ⟨rfl, -, i, hi, -, hd, -, hstored⟩ := hend
    exact ⟨_, List.mem_append_right _ (mem_answers.2 hstored), ⟨i, hi, rfl⟩, hd.symm⟩
  | putTree tree => exact ⟨_, (hcontent _ hd).1, rfl, (hcontent _ hd).2⟩
  | ingestDir stack dir =>
    have hres := toOption_eq_some.1 hd
    obtain ⟨t, ht, htd, hstored⟩ := ingestDir_answers (hsound _) hop
      (putsOnly_enter s (Storing.ingestDir b3 st stack dir s.session)) hres
    refine ⟨.tree t, ?_, ⟨t, ht, rfl⟩, htd⟩
    have hmem : Request.tree t ∈ (s.enter (Storing.ingestDir b3 st stack dir s.session)).answered :=
      List.mem_append_right _ (mem_answers.2 hstored)
    unfold Ledger.after
    simp only []
    rw [hres]
    exact hmem
  | materializeTree intent d dest => cases hd
  | gc turns roots minAge => cases hd
  | others v => cases hd

end Step

section Whole

/-- What is there can be read. -/
theorem getBytes_of_readable {w : Link.Session Machine} {d : Digest} {c : List UInt8}
    (hf : w.os.moment.fault = none) (h : readable w.os.volume (st.objectPath d) = .ok c) :
    (getBytes st d w).result = .ok c := by
  have hread : (Machine.read (st.objectPath d) w.os).1 = .ok c := by
    unfold Machine.read query ask
    rw [hf]
    exact h
  show Except.mapError _ (st.bytesOf d (Machine.read (st.objectPath d) w.os).1) = _
  rw [hread]
  rfl

/-- The objects of a store over a run of operations, any call of which may fail. Each is sealed and
holds what was put under its digest, one step to the next leaves its content alone unless it is a
collection that removes it, and what a put has returned a digest for can be read until then. -/
theorem store_keeps {w : Link.Session Machine} {ops : List Op} (hunused : Unused st w.os.volume)
    (hapart : Runs.AllSteps (step b3 st) (Apart st) (.new w) ops)
    (hvisits : Runs.Visits (step b3 st) (.new w) ops s) (hcoll : Collisionless b3 (· ∈ s.asked)) :
    (∀ d e, s.volume.find (st.objectPath d) = some e → ∃ i, e = .file i ∧
      (s.volume.inode i).mode = objectMode ∧
      Named b3 (· ∈ s.asked) d (s.volume.inode i).content) ∧
    (∀ r ∈ s.answered, s.session.os.moment.fault = none →
      (getBytes st (r.digest b3) s.session).result = .ok r.content) ∧
    ∀ op, Apart st s op → Collisionless b3 (· ∈ (s.after b3 st op).asked) →
      (∀ d c, readable s.volume (st.objectPath d) = .ok c →
        readable (s.after b3 st op).volume (st.objectPath d) = .ok c ∨
          (∃ turns roots minAge, op = .gc turns roots minAge) ∧
            (s.after b3 st op).volume.find (st.objectPath d) = none) ∧
      ∀ d, s.returned b3 st op = some d →
        ∃ r ∈ (s.after b3 st op).answered, s.Given b3 op r ∧ r.digest b3 = d := by
  have hkept : Kept b3 st s := Kept.visits (kept_new hunused) hapart hvisits
  refine ⟨fun d e he => ?_, fun r hr hf => ?_, fun op hop hcoll' => ⟨fun d c hc => ?_,
    fun d hd => hkept.answers hop hd⟩⟩
  · obtain ⟨i, hi, hnamed, hmode⟩ := hkept.sound.object d e he
    exact ⟨i, hi, hmode, hnamed⟩
  · obtain ⟨hasked, hthere⟩ := hkept.answered r hr
    exact getBytes_of_readable hf (hkept.sound.readable_of_named hcoll hasked hthere)
  · have hsteps := hkept.after hop
    have hthere : s.volume.find (st.objectPath d) ≠ none := by
      intro hgone
      rw [readable, fileAt, hgone] at hc
      cases hc
    obtain ⟨e, he⟩ := Option.ne_none_iff_exists'.1 hthere
    obtain ⟨i, rfl, ⟨r, hr, rfl, hcontent⟩, -⟩ := hkept.sound.object d e he
    by_cases hnone : (s.after b3 st op).volume.find (st.objectPath (r.digest b3)) = none
    · exact .inr ⟨(hsteps.there _ hthere).resolve_left fun h => h hnone, hnone⟩
    · left
      rw [hsteps.kept.sound.readable_of_named hcoll' (hsteps.asked r hr) hnone, hcontent, ← hc,
        readable, fileAt_eq_ok he]
      rfl

/-- The manifest of the sample directory can be read once the directory was ingested. -/
theorem sample_readable : ∃ r ∈ ((new (Storing.sampleSession false)).after sampleBlake3 sampleStore
      (.ingestDir 2 ["/", "src"])).answered,
    (getBytes sampleStore (r.digest sampleBlake3) ((new (Storing.sampleSession false)).after
      sampleBlake3 sampleStore (.ingestDir 2 ["/", "src"])).session).result = .ok r.content := by
  -- whatever the store and the directory are: the sample is not evaluated in what follows
  have hread : ∀ (b3 : Blake3) (st : ObjectStore) (w : Link.Session Machine) (dir : Path),
      Unused st w.os.volume → st.Clear dir → (∀ n, (w.os.script n).fault = none) →
      Collisionless b3 (fun r => .put r ∈ (ingestDir b3 st 2 dir w).trace) →
      (ingestDir b3 st 2 dir w).result.toOption.isSome →
      ∃ r ∈ ((new w).after b3 st (.ingestDir 2 dir)).answered,
        (getBytes st (r.digest b3) ((new w).after b3 st (.ingestDir 2 dir)).session).result
          = .ok r.content := by
    intro b3 st w dir hunused hclear hcalm hcoll hsome
    obtain ⟨d, hd⟩ := Option.isSome_iff_exists.1 hsome
    have hcoll' : Collisionless b3 (· ∈ ((new w).after b3 st (.ingestDir 2 dir)).asked) := by
      intro r r' hr hr'
      rw [asked_ingestDir] at hr hr'
      exact hcoll r r' (mem_puts.1 hr) (mem_puts.1 hr')
    have hnil : Runs.Visits (step b3 st) (new w) [] (new w) := ⟨[], [], rfl, rfl⟩
    have hone : Runs.Visits (step b3 st) (new w) [.ingestDir 2 dir]
        ((new w).after b3 st (.ingestDir 2 dir)) := ⟨[.ingestDir 2 dir], [], rfl, rfl⟩
    have hapart₀ : Runs.AllSteps (step b3 st) (Apart st) (new w) [] := trivial
    have hapart : Runs.AllSteps (step b3 st) (Apart st) (new w) [.ingestDir 2 dir] :=
      ⟨hclear, fun _ _ => trivial⟩
    obtain ⟨-, -, hstart⟩ := store_keeps hunused hapart₀ hnil fun r _ hr => by cases hr
    obtain ⟨r, hr, -⟩ := (hstart (.ingestDir 2 dir) hclear hcoll').2 d hd
    obtain ⟨-, hend, -⟩ := store_keeps hunused hapart hone hcoll'
    have hsound : Sound st (Named b3 fun _ => True) w.os.volume := hunused.sound
    have hscript : ((new w).after b3 st (.ingestDir 2 dir)).session.os.script = w.os.script := by
      rw [session_ingestDir]
      exact (ingestDir_ends hsound hclear fun _ _ => trivial).served.continues.script
    refine ⟨r, hr, hend r hr ?_⟩
    unfold moment
    rw [hscript]
    exact hcalm _
  obtain ⟨hsome, hunused, hnames⟩ := sampleIngest_runs
  have hcoll := collisionless_of_names hnames
  unfold sampleIngest at hsome hcoll
  exact hread _ _ _ _ hunused sampleStore_clear (fun _ => rfl)
    (fun r r' hr hr' => hcoll r r' (List.mem_append_left _ hr) (List.mem_append_left _ hr')) hsome

end Whole

end Ledger

end Jetrun
