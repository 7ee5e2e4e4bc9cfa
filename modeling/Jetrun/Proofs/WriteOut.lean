import Jetrun.Proofs.FileTree
import Jetrun.Proofs.Ingest

/-!
# Writing a tree out

What is written out is what the digest expands to. It is written below a fresh destination apart
from the store, and of the store at most a name of an object is added there. If no call fails by
itself, it fails where the digest does not expand, with the same error.
-/

namespace Jetrun

open Traced Volumes Volumes.Volume

namespace ObjectStore

open Machine Storing

variable {b3 : Blake3} {st : ObjectStore} {N : Digest → List UInt8 → Prop} {intent : Intent}
  {ok : FsEvent → Prop}

section Places

variable {dest : Path} {v : Volume String}

/-- A destination that is fresh and not in the store is apart from it. -/
theorem Storing.Sound.clear (hs : Sound st N v) (hout : ¬st.Inside dest) (hfree : v.Free dest) :
    st.Clear dest := by
  refine ⟨hout, fun hp => ?_⟩
  have hroot : st.root <+: st.objects := ⟨_, st.root_push_eq.1.symm⟩
  have hdir := isDir_of_prefix hs.objects_dir (hp.trans hroot)
  rw [hfree.2.2] at hdir
  cases hdir

theorem Clear.not_above (h : st.Clear dest) (d : Digest) : ¬dest <+: st.objectPath d :=
  h.not_both (slot_inside (.inr (.inl rfl)))

theorem prefix_child {n : String} {rel : Path} :
    dest ++ [n] <+: dest ++ rel ↔ ∃ rest, rel = n :: rest := by
  rw [List.prefix_append_right_inj]
  constructor
  · rintro ⟨rest, rfl⟩
    exact ⟨rest, rfl⟩
  · rintro ⟨rest, rfl⟩
    exact ⟨rest, rfl⟩

end Places

section Calls

variable {α β : Type} {w : World Machine} {h : List FsEvent}
  {R : Except CasError β → World Machine → List FsEvent → Prop}

theorem leads_call_bind {f : StateM Machine α} {k : α → Materializing Machine β}
    (hf : Acts f (fun a m => Leads ok (k a) R { w with session := { w.session with os := m } } h)
      w.session.os) : Leads ok (Jetrun.call f >>= k) R w h :=
  leads_act_bind hf

theorem leads_check_bind {op : String} {path : Path} {result : Except IoError α}
    {k : α → Materializing Machine β} (hok : ∀ a, result = .ok a → Leads ok (k a) R w h)
    (herror : ∀ e, result = .error e → R (.error (.io op path e)) w h) :
    Leads ok (Jetrun.check op path result >>= k) R w h := by
  refine leads_bind (leads_ofExcept ?_)
  rcases result with e | a
  · exact herror e rfl
  · exact hok a rfl

end Calls

/-- The events say that a file was placed here that shares the inode of its object. -/
def Lower (h : List FsEvent) (q : Path) : Prop :=
  ∃ src, FsEvent.materialize src q .overlayLower (.ok .hardlink) ∈ h

/-- From one world to another something was written at a path and below it, and nowhere else. What
came to share an inode with an object is in the events. -/
structure Written (st : ObjectStore) (N : Digest → List UInt8 → Prop) (w : World Machine)
    (h : List FsEvent) (p : Path) (w' : World Machine) (h' : List FsEvent) : Prop where
  continues : Continues w.session.os w'.session.os
  sound : Sound st N w'.session.os.volume
  beside : Beside (p <+: ·) w.session.os.volume w'.session.os.volume
  logged : ∀ e ∈ h, e ∈ h'
  shares : ∀ q, ¬st.Inside q → st.Shares w'.session.os.volume q →
    st.Shares w.session.os.volume q ∨ Lower h' q

namespace Written

variable {w w' w'' : World Machine} {h h' h'' : List FsEvent} {p q : Path}

theorem start (hs : Sound st N w.session.os.volume) : Written st N w h p w h :=
  ⟨.refl _, hs, .refl _, fun _ he => he, fun _ _ hq => .inl hq⟩

theorem trans (hw : Written st N w h p w' h') (hw' : Written st N w' h' q w'' h'') (hpq : p <+: q) :
    Written st N w h p w'' h'' where
  continues := hw.continues.trans hw'.continues
  sound := hw'.sound
  beside := hw.beside.trans (hw'.beside.mono fun _ hq => hpq.trans hq)
  logged e he := hw'.logged e (hw.logged e he)
  shares r hr hshares := by
    rcases hw'.shares r hr hshares with hold | hlower
    · refine (hw.shares r hr hold).imp_right ?_
      rintro ⟨src, he⟩
      exact ⟨src, hw'.logged _ he⟩
    · exact .inr hlower

theorem calls (hw : Written st N w h p w' h') : Written st N w h p { w' with session :=
    { w'.session with os := w'.session.os.after w'.session.os.volume } } h' :=
  ⟨hw.continues.after _, hw.sound, hw.beside, hw.logged, hw.shares⟩

theorem counted (hw : Written st N w h p w' h') (stats : MaterializeStats) :
    Written st N w h p { w' with stats } h' :=
  ⟨hw.continues, hw.sound, hw.beside, hw.logged, hw.shares⟩

theorem emit (hw : Written st N w h p w' h') (e : FsEvent) : Written st N w h p w' (h' ++ [e]) :=
  hw.trans ⟨.refl _, hw.sound, .refl _, fun _ he => List.mem_append_left _ he, fun _ _ hq => .inl hq⟩
    (List.prefix_refl _)

/-- A call that changed what stands at the path itself. -/
theorem changed (hw : Written st N w h p w' h') (hp : ¬st.Inside p) {m : Machine}
    {caps : Capabilities} {stats : MaterializeStats} (hcont : Continues w'.session.os m)
    (hb : Beside (· = p) w'.session.os.volume m.volume)
    (hown : Owned m.volume p ∨
      (∃ d, m.volume.find p = w'.session.os.volume.find (st.objectPath d)) ∧ Lower h' p) :
    Written st N w h p ⟨⟨m, caps⟩, stats⟩ h' := by
  have hobject : ∀ d, st.objectPath d ≠ p := fun d hd =>
    hp (hd ▸ slot_inside (.inr (.inl rfl)))
  refine hw.trans ⟨hcont, hw.sound.outside hb hp (hown.imp_right And.left),
    hb.mono fun _ hq => hq ▸ List.prefix_refl _, fun _ he => he, fun q hq hshares => ?_⟩
    (List.prefix_refl _)
  by_cases hqp : q = p
  · subst hqp
    rcases hown with hown | ⟨-, hlower⟩
    · obtain ⟨d, i, hi, hd⟩ := hshares
      exact absurd (hown i hi _ hd) (hobject d)
    · exact .inr hlower
  · exact .inl (hshares.congr (hb.find hqp) fun d => hb.find (hobject d))

theorem calm (hw : Written st N w h p w' h') {P : Prop} (hf : ¬w'.session.os.Calm)
    (hcalm : w.session.os.Calm) : P :=
  absurd (hw.continues.calm.2 hcalm) hf

end Written

section Entries

variable {w w' : World Machine} {h : List FsEvent} {child : Path} {v₀ : Volume String}
  {into : Digest → Except CasError (List (Path × Node))}

theorem counted_record (s : MaterializeStats) (mode : LinkMode) (d : Digest) (size : UInt64)
    (executable : Bool) : Counted s [.file d size executable] (s.record mode size) := by
  rcases s with ⟨reflinked, hardlinked, copied, dirs, symlinks, bytes⟩
  refine ⟨?_, ?_, ?_, ?_⟩
  · rcases mode with _ | _ | _
    all_goals
      simp only [MaterializeStats.record, MaterializeStats.files, List.countP_singleton, Node.isFile,
        if_true]
      show _ = _ + 1
      grind
  · rcases mode with _ | _ | _
    all_goals exact (UInt64.add_zero _).symm
  · rcases mode with _ | _ | _
    all_goals exact (UInt64.add_zero _).symm
  · rcases mode with _ | _ | _
    all_goals simp [MaterializeStats.record, Node.declaredSize]

/-- What placing one entry comes to. -/
def EntryEnds (st : ObjectStore) (N : Digest → List UInt8 → Prop) (v₀ : Volume String)
    (into : Digest → Except CasError (List (Path × Node))) (e : EntryName × Node)
    (w : World Machine) (h : List FsEvent) (child : Path) (r : Except CasError Unit)
    (w' : World Machine) (h' : List FsEvent) : Prop :=
  Written st N w h child w' h' ∧ match r with
    | .ok () => ∃ l, expandEntry st v₀ into e = .ok l ∧
      ReflectsAt st v₀ e.1.text l (view w'.session.os.volume child) ∧
      Counted w.stats (l.map Prod.snd) w'.stats
    | .error err => w.session.os.Calm → expandEntry st v₀ into e = .error err

/-- A path where nothing is, in a directory apart from the store. -/
structure Vacant (st : ObjectStore) (v : Volume String) (p : Path) : Prop where
  clear : st.Clear p
  free : v.Free p
  none : v.find p = none

theorem acts_within {α : Type} {f : StateM (Link.Session Machine) α} {Q : α → World Machine → Prop}
    (hf : Acts f (fun a s => Q a { w with session := s }) w.session) :
    Acts (World.within f) Q w := hf

theorem placeIntent_lower {executable : Bool} (h : placeIntent intent executable = .overlayLower) :
    executable = false := by
  rcases executable with _ | _
  · rfl
  · cases h

theorem wantedMode_executable (intent : Intent) (executable : Bool) :
    decide (wantedMode intent executable &&& 0o100 ≠ 0) = executable := by
  rcases intent with _ | _ <;> rcases executable with _ | _ <;> rfl

/-- A file that was placed shows as its node does. -/
theorem reflectsAt_file {v : Volume String} {n : String} {d : Digest} {size : UInt64}
    {executable : Bool} {j : ℕ} (hne : child ≠ []) (hj : v.find child = some (.file j))
    (hread : readable v₀ (st.objectPath d) = .ok (v.inode j).content)
    (hmode : decide ((v.inode j).mode &&& 0o100 ≠ 0) = executable) :
    ReflectsAt st v₀ n [([n], .file d size executable)] (view v child) := by
  have hseen : view v child [] = some (.file (v.inode j).content executable) := by
    rw [view, List.append_nil, hj, Option.map_some, seenAs, hmode]
  refine reflectsAt_leaf ((view_rooted hne).below (by simp [hseen])) ?_
  rw [hseen, shown, hread]
  rfl

theorem reflectsAt_symlink {v : Volume String} {n target : String} (hne : child ≠ [])
    (hfind : v.find child = some (.symlink (Utf8.encode target))) :
    ReflectsAt st v₀ n [([n], .symlink target)] (view v child) := by
  have hseen : view v child [] = some (.symlink (Utf8.encode target)) := by
    rw [view, List.append_nil, hfind]
    rfl
  exact reflectsAt_leaf ((view_rooted hne).below (by simp [hseen])) hseen

/-- The mode of a file that has an inode of its own is set after it was placed. -/
theorem sealFile_leads {mode : LinkMode} {executable : Bool} {j : ℕ} {h' : List FsEvent}
    {R : Except CasError Unit → World Machine → List FsEvent → Prop}
    (hw : Written st N w h child w' h')
    (hclear : st.Clear child) (hj : w'.session.os.volume.find child = some (.file j))
    (hspot : mode ≠ .hardlink → Spot w'.session.os.volume child)
    (hshared : mode = .hardlink →
      decide ((w'.session.os.volume.inode j).mode &&& 0o100 ≠ 0) = executable)
    (hR : ∀ r w'' h'', Written st N w h child w'' h'' → w''.stats = w'.stats → (match r with
      | .ok () => w''.session.os.volume.find child = some (.file j) ∧
        (w''.session.os.volume.inode j).content = (w'.session.os.volume.inode j).content ∧
        decide ((w''.session.os.volume.inode j).mode &&& 0o100 ≠ 0) = executable
      | .error _ => ¬w.session.os.Calm) → R r w'' h'') :
    Leads ok (sealFile Machine.os intent child mode executable) R w' h' := by
  have hfault : ¬w'.session.os.Calm → ¬w.session.os.Calm := fun hf hcalm =>
    hf (hw.continues.calm.2 hcalm)
  unfold sealFile
  split_ifs with hmode
  · exact leads_pure (hR _ _ _ hw rfl ⟨hj, rfl, hshared hmode⟩)
  · refine leads_call_bind (acts_forget (acts_query (fun e hf => ?_) ?_))
    · exact leads_check_bind (fun _ h => by cases h) fun _ _ => hR _ _ _ hw.calls rfl (hfault hf)
    rw [hj]
    refine leads_check_bind (fun _ _ => ?_) fun _ h => by cases h
    refine leads_call_bind (acts_setPermissions (hspot hmode).replacing hj (fun e hf => ?_)
      fun v hrep hj' hcontent hwant => ?_)
    · refine Traced.leads_emit_bind fun _ => leads_ofExcept ?_
      exact hR _ _ _ (hw.calls.calls.emit _) rfl (hfault hf)
    · refine Traced.leads_emit_bind fun _ => leads_ofExcept ?_
      refine hR _ _ _ ((hw.calls.changed hclear.1 ((Continues.refl _).after v) hrep.beside
        (.inl hrep.spot.owned)).emit _) rfl ⟨hj', hcontent, ?_⟩
      show decide ((v.inode j).mode &&& 0o100 ≠ 0) = executable
      rw [hwant]
      exact wantedMode_executable intent executable

theorem placeFile_leads (hs : Sound st N w.session.os.volume)
    (hsame : SameObjects st v₀ w.session.os.volume) (hvacant : Vacant st w.session.os.volume child)
    {n : EntryName} {d : Digest} {size : UInt64} {executable : Bool} :
    Leads ok (placeFile Machine.os st intent child d size executable)
      (EntryEnds st N v₀ into (n, .file d size executable) w h child) w h := by
  unfold placeFile
  refine leads_call_bind (acts_pathExists fun b hb hcalm => ?_)
  rcases b with _ | _
  · rw [if_neg (by simp)]
    refine leads_ofExcept ⟨(Written.start hs).calls, fun hc => ?_⟩
    have hnone : w.session.os.volume.find (st.objectPath d) = none := by
      by_contra hne
      obtain ⟨e, he⟩ := Option.ne_none_iff_exists'.1 hne
      obtain ⟨i, rfl, -⟩ := hs.object d e he
      cases hcalm hc i he
    rw [hsame.find] at hnone
    exact if_pos hnone
  · rw [if_pos rfl]
    obtain ⟨e, he⟩ := Option.ne_none_iff_exists'.1 (hb rfl)
    obtain ⟨i, rfl, -, hsealed⟩ := hs.object d e he
    have hne : st.objectPath d ≠ child := fun hchild =>
      hvacant.clear.1 (hchild ▸ slot_inside (.inr (.inl rfl)))
    have hread : readable v₀ (st.objectPath d) = .ok (w.session.os.volume.inode i).content := by
      rw [← hsame.read, readable, fileAt_eq_ok he]
      rfl
    have hthere : v₀.find (st.objectPath d) ≠ none := by
      rw [← hsame.find, he]
      simp
    have hplaced : Acts (Link.materialize Machine.os _ _ (placeIntent intent executable))
        (Link.Ends (w.session.os.after w.session.os.volume) child i _)
        { w.session with os := w.session.os.after w.session.os.volume } :=
      Link.materialize_ends he hne (spot_of_find_none hvacant.free hvacant.none) rfl
    refine leads_act_bind (acts_within (hplaced.mono ?_))
    rintro (e | mode) s ⟨hcont, hres⟩
    · refine Traced.leads_emit_bind fun _ => leads_check_bind (fun _ h => by cases h) fun _ _ => ?_
      refine ⟨((Written.start hs).calls.changed hvacant.clear.1 hcont hres.1.beside
        (.inl hres.1.spot.owned)).emit _, fun hc => ?_⟩
      exact absurd hc hres.2
    · refine Traced.leads_emit_bind fun _ => leads_check_bind (fun mode' hmode' => ?_)
        fun _ h => by cases h
      obtain rfl : mode = mode' := by simpa using hmode'
      obtain ⟨j, hj, hcontent, hshare⟩ := hres.file
      have hown : Owned s.os.volume child ∨
          (∃ d, s.os.volume.find child = w.session.os.volume.find (st.objectPath d)) ∧
            Lower (h ++ [.materialize (st.objectPath d) child (placeIntent intent executable)
              (.ok mode)]) child := by
        by_cases hhard : mode = .hardlink
        · refine .inr ⟨⟨d, by rw [hj, hshare hhard, he]⟩, st.objectPath d, ?_⟩
          rw [hres.shared hhard, hhard]
          exact List.mem_append_right _ (List.mem_singleton_self _)
        · exact .inl (hres.own hhard).owned
      refine leads_act_bind ?_
      refine sealFile_leads (((Written.start hs).calls.emit _).changed hvacant.clear.1 hcont
        hres.beside hown)
        hvacant.clear hj hres.own (fun hhard => ?_) fun r w'' h' hw hstats hr => ⟨hw, ?_⟩
      · have hlower := placeIntent_lower (hres.shared hhard)
        have hinode : s.os.volume.inode i = w.session.os.volume.inode i :=
          hres.beside.inode hne he
        subst hlower
        show decide ((s.os.volume.inode j).mode &&& 0o100 ≠ 0) = false
        rw [hshare hhard, hinode, hsealed]
        rfl
      · rcases r with e | u
        · exact fun hc => absurd hc hr
        · obtain ⟨hj', hcontent', hx⟩ := hr
          refine ⟨_, if_neg hthere, reflectsAt_file hvacant.clear.ne_nil hj' ?_ hx, ?_⟩
          · rw [hcontent', hread]
            exact congrArg Except.ok hcontent.symm
          · rw [hstats]
            exact counted_record _ _ _ _ _

theorem symlinkEntry_leads (hs : Sound st N w.session.os.volume)
    (hvacant : Vacant st w.session.os.volume child) {n : EntryName} {target : String}
    (htarget : target ≠ "") :
    Leads ok (do
      let result ← Jetrun.call (Machine.os.symlink target child)
      Traced.emit (.symlink target child result)
      Jetrun.check "symlink" child result
      count fun s => { s with symlinks := s.symlinks + 1 })
      (EntryEnds st N v₀ into (n, .symlink target) w h child) w h := by
  have hw : Written st N w h child w h := .start hs
  refine leads_call_bind (acts_symlink (fun e hf => ?_) fun hp he _ => ?_)
  · refine Traced.leads_emit_bind fun _ => leads_check_bind (fun _ h => by cases h) fun _ _ => ?_
    exact ⟨hw.calls.emit _, fun hc => absurd hvacant.none (hf hc hvacant.free htarget)⟩
  · refine Traced.leads_emit_bind fun _ => leads_check_bind (fun _ _ => ?_) fun _ h => by cases h
    have hfind : (w.session.os.volume.put child (.symlink (Utf8.encode target)) hp he).find child
        = some (.symlink (Utf8.encode target)) := (find_put hp he).trans (if_pos rfl)
    refine leads_act ⟨((hw.changed hvacant.clear.1 ((Continues.refl _).after _)
      (beside_put hvacant.free (by simp) rfl) (.inl fun i hi => ?_)).emit _).counted _, _, rfl,
      reflectsAt_symlink hvacant.clear.ne_nil hfind, ?_⟩
    · cases hfind.symm.trans hi
    · exact ⟨(UInt64.add_zero _).symm, (UInt64.add_zero _).symm, rfl, (UInt64.add_zero _).symm⟩

/-- What writing a tree to a fresh place comes to. -/
def TreeWritten (b3 : Blake3) (st : ObjectStore) (N : Digest → List UInt8 → Prop)
    (v₀ : Volume String) (levels : ℕ) (d : Digest) (w : World Machine) (h : List FsEvent)
    (dest : Path) (r : Except CasError Unit) (w' : World Machine) (h' : List FsEvent) : Prop :=
  Written st N w h dest w' h' ∧ match r with
    | .ok () => ∃ l, expand b3 st v₀ levels d = .ok l ∧
      Reflects st v₀ l (view w'.session.os.volume dest) ∧
      Counted { w.stats with dirs := w.stats.dirs + 1 } (l.map Prod.snd) w'.stats
    | .error e => w.session.os.Calm → expand b3 st v₀ levels d = .error e

/-- What writing trees is to do. -/
def Writes (b3 : Blake3) (st : ObjectStore) (N : Digest → List UInt8 → Prop)
    (ok : FsEvent → Prop) (v₀ : Volume String) (levels : ℕ)
    (into : Digest → Path → Materializing Machine Unit) : Prop :=
  ∀ d dest w h, Sound st N w.session.os.volume → SameObjects st v₀ w.session.os.volume →
    Vacant st w.session.os.volume dest →
    Leads ok (into d dest) (TreeWritten b3 st N v₀ levels d w h dest) w h

/-- A directory is counted when it is created, before what stands in it. -/
theorem counted_dir {s s' : MaterializeStats} {n : String} {d : Digest} {l : List (Path × Node)}
    (h : Counted { s with dirs := s.dirs + 1 } (l.map Prod.snd) s') :
    Counted s (((([n], .dir d) : Path × Node) :: l.map fun x => (n :: x.1, x.2)).map Prod.snd) s' := by
  have hnodes : ((([n], .dir d) : Path × Node) :: l.map fun x => (n :: x.1, x.2)).map Prod.snd
      = .dir d :: l.map Prod.snd := by
    rw [List.map_cons, List.map_map]
    rfl
  rw [hnodes]
  refine ⟨?_, ?_, ?_, ?_⟩
  · rw [h.files, List.countP_cons_of_neg (by simp [Node.isFile])]
    rfl
  · rw [h.dirs, List.countP_cons_of_pos rfl, UInt64.ofNat_add]
    show s.dirs + 1 + _ = s.dirs + (_ + 1)
    grind
  · rw [h.symlinks, List.countP_cons_of_neg (by simp [Node.isSymlink])]
  · rw [h.bytes, List.map_cons, List.sum_cons]
    exact congrArg _ (UInt64.zero_add _).symm

theorem placeEntry_leads {levels : ℕ} {write : Digest → Path → Materializing Machine Unit}
    (hwrite : Writes b3 st N ok v₀ levels write) (hs : Sound st N w.session.os.volume)
    (hsame : SameObjects st v₀ w.session.os.volume) {dest : Path} {e : EntryName × Node}
    (hvacant : Vacant st w.session.os.volume (dest ++ [e.1.text])) (hfits : Tree.NodeFits e.2) :
    Leads ok (placeEntry Machine.os st intent write dest e)
      (EntryEnds st N v₀ (expand b3 st v₀ levels) e w h (dest ++ [e.1.text])) w h := by
  unfold placeEntry
  rw [Path.push_plain e.1.plain]
  rcases e with ⟨n, ⟨d, size, executable⟩ | d | target⟩
  · exact placeFile_leads hs hsame hvacant
  · refine (hwrite d _ w h hs hsame hvacant).mono ?_
    rintro (e | u) w' h' ⟨hw, hres⟩
    · refine ⟨hw, fun hc => ?_⟩
      show (expand b3 st v₀ levels d).map _ = _
      rw [hres hc]
      rfl
    · obtain ⟨l, hl, hreflects, hcounted⟩ := hres
      exact ⟨hw, _, expandEntry_dir hl, hreflects.at_name, counted_dir hcounted⟩
  · exact symlinkEntry_leads hs hvacant hfits.1

/-- A tree that was written out so far: what was done is reflected, and what is to come is not
there. -/
structure Underway (b3 : Blake3) (st : ObjectStore) (N : Digest → List UInt8 → Prop)
    (v₀ : Volume String) (levels : ℕ) (es : List (EntryName × Node)) (dest : Path)
    (w₁ : World Machine) (h₁ : List FsEvent) (rest : List (EntryName × Node)) (w : World Machine)
    (h : List FsEvent) : Prop where
  written : Written st N w₁ h₁ dest w h
  same : SameObjects st v₀ w.session.os.volume
  progress : ∃ done l, es = done ++ rest ∧
    expandEntries st v₀ (expand b3 st v₀ levels) done = .ok l ∧
    Reflects st v₀ l (view w.session.os.volume dest) ∧ Counted w₁.stats (l.map Prod.snd) w.stats

theorem counted_append {s s' s'' : MaterializeStats} {l l' : List Node} (h : Counted s l s')
    (h' : Counted s' l' s'') : Counted s (l ++ l') s'' := by
  refine ⟨?_, ?_, ?_, ?_⟩
  · rw [h'.files, h.files, List.countP_append, UInt64.ofNat_add, UInt64.add_assoc]
  · rw [h'.dirs, h.dirs, List.countP_append, UInt64.ofNat_add, UInt64.add_assoc]
  · rw [h'.symlinks, h.symlinks, List.countP_append, UInt64.ofNat_add, UInt64.add_assoc]
  · rw [h'.bytes, h.bytes, List.map_append, List.sum_append, UInt64.add_assoc]

/-- An entry that was placed is reflected too, and the others still are. -/
theorem Reflects.place {v v' : Volume String} {dest : Path} {n : String}
    {l l' : List (Path × Node)} (h : Reflects st v₀ l (view v dest))
    (hb : Beside (dest ++ [n] <+: ·) v v') (h' : ReflectsAt st v₀ n l' (view v' (dest ++ [n])))
    (hnew : ∀ x ∈ l, x.1.head? ≠ some n) : Reflects st v₀ (l ++ l') (view v' dest) := by
  have hkeep : ∀ rel : Path, (∀ rest, rel ≠ n :: rest) → view v' dest rel = view v dest rel := by
    intro rel hrel
    refine seen_beside hb fun hp => ?_
    obtain ⟨rest, heq⟩ := prefix_child.1 hp
    exact hrel rest heq
  have hbelow : ∀ rest : Path, view v' dest (n :: rest) = view v' (dest ++ [n]) rest := fun rest =>
    congrFun (view_sub v' dest n) rest
  refine ⟨?_, fun x hx => ?_, fun rel hrel => ?_⟩
  · rw [hkeep [] (fun _ h => by cases h)]
    exact h.root
  · rcases List.mem_append.1 hx with hx | hx
    · rw [hkeep x.1 fun rest hrest => hnew x hx (by rw [hrest]; rfl)]
      exact h.entry x hx
    · obtain ⟨rest, hpath, hshown⟩ := h'.entry x hx
      rw [hpath, hbelow]
      exact hshown
  · rw [List.map_append, List.mem_append]
    by_cases hn : ∃ rest, rel = n :: rest
    · obtain ⟨rest, rfl⟩ := hn
      rw [hbelow] at hrel
      exact .inr (.inr (h'.only rest hrel))
    · rw [hkeep rel fun rest hrest => hn ⟨rest, hrest⟩] at hrel
      exact (h.only rel hrel).imp_right .inl

theorem SameObjects.trans {v v' v'' : Volume String} (h : SameObjects st v v')
    (h' : SameObjects st v' v'') : SameObjects st v v'' :=
  ⟨fun d => (h'.find d).trans (h.find d), fun d => (h'.read d).trans (h.read d)⟩

theorem Written.same {p : Path} {h' : List FsEvent} (hw : Written st N w h p w' h') (hclear : st.Clear p) :
    SameObjects st w.session.os.volume w'.session.os.volume :=
  sameObjects_beside hw.beside hclear.not_above

section Loop

variable {levels : ℕ} {write : Digest → Path → Materializing Machine Unit} {dest : Path}
  {w₁ : World Machine} {h₁ h' : List FsEvent}

/-- What was expanded so far stands under other names. -/
theorem head_ne {done rest : List (EntryName × Node)} {e : EntryName × Node}
    {l : List (Path × Node)} (hes : ((done ++ e :: rest).map Prod.fst).Nodup)
    (hl : expandEntries st v₀ (expand b3 st v₀ levels) done = .ok l) :
    ∀ x ∈ l, x.1.head? ≠ some e.1.text := by
  intro x hx hhead
  obtain ⟨e', he', l', hl', hx'⟩ := (mem_expandEntries hl x).1 hx
  have hname := (expandEntry_once (expand_once levels) hl').2 x hx'
  rw [hhead, Option.some.injEq] at hname
  rw [List.map_append, List.map_cons] at hes
  refine (List.nodup_append.1 hes).2.2 e'.1 (List.mem_map_of_mem he') e.1 List.mem_cons_self ?_
  exact EntryName.ext_text hname.symm

theorem Underway.vacant {es rest : List (EntryName × Node)} {e : EntryName × Node}
    (hu : Underway b3 st N v₀ levels es dest w₁ h₁ (e :: rest) w h) (hes : (es.map Prod.fst).Nodup)
    (hclear : st.Clear dest) : Vacant st w.session.os.volume (dest ++ [e.1.text]) := by
  obtain ⟨done, l, rfl, hl, hreflects, -⟩ := hu.progress
  have hnone : w.session.os.volume.find (dest ++ [e.1.text]) = none := by
    by_contra hne
    have hseen : view w.session.os.volume dest [e.1.text] ≠ none := fun hnone =>
      hne (Option.map_eq_none_iff.1 hnone)
    rcases hreflects.only _ hseen with hnil | hmem
    · cases hnil
    · obtain ⟨x, hx, hpath⟩ := List.mem_map.1 hmem
      exact head_ne hes hl x hx (by rw [hpath]; rfl)
  have hroot := hreflects.root
  rw [view, List.append_nil, Option.map_eq_some_iff] at hroot
  obtain ⟨entry, hentry, hdir⟩ := hroot
  obtain ⟨odd, rfl⟩ : ∃ odd, entry = .dir odd := by
    rcases entry with i | odd | target | _
    · cases hdir
    · exact ⟨odd, rfl⟩
    · cases hdir
    · cases hdir
  refine ⟨hclear.child _, ⟨by simp, ?_, ?_⟩, hnone⟩
  · rw [List.dropLast_concat]
    exact isDir_of_find hentry
  · exact isDir_eq_false (by simp) (by simp [hnone])

theorem Underway.place {es rest : List (EntryName × Node)} {e : EntryName × Node}
    (hu : Underway b3 st N v₀ levels es dest w₁ h₁ (e :: rest) w h) (hes : (es.map Prod.fst).Nodup)
    (hclear : st.Clear dest) (hend : EntryEnds st N v₀ (expand b3 st v₀ levels) e w h
      (dest ++ [e.1.text]) (.ok ()) w' h') :
    Underway b3 st N v₀ levels es dest w₁ h₁ rest w' h' := by
  obtain ⟨done, l, rfl, hl, hreflects, hcounted⟩ := hu.progress
  obtain ⟨hw, l', hl', hreflects', hcounted'⟩ := hend
  refine ⟨hu.written.trans hw (List.prefix_append _ _), hu.same.trans (hw.same (hclear.child _)),
    done ++ [e], l ++ l', (by simp), ?_, hreflects.place hw.beside hreflects' (head_ne hes hl), ?_⟩
  · rw [expandEntries_append hl, expandEntries, hl']
    show Except.ok (l ++ (l' ++ [])) = _
    rw [List.append_nil]
  · rw [List.map_append]
    exact counted_append hcounted hcounted'

theorem Underway.fails {es rest : List (EntryName × Node)} {e : EntryName × Node} {err : CasError}
    (hu : Underway b3 st N v₀ levels es dest w₁ h₁ (e :: rest) w h)
    (herror : expandEntry st v₀ (expand b3 st v₀ levels) e = .error err) :
    expandEntries st v₀ (expand b3 st v₀ levels) es = .error err := by
  obtain ⟨done, l, rfl, hl, -⟩ := hu.progress
  rw [expandEntries_append hl, expandEntries, herror]
  rfl

/-- The entries of a tree, one after the other. -/
theorem placeEntries_leads (hwrite : Writes b3 st N ok v₀ levels write) (hclear : st.Clear dest)
    {es : List (EntryName × Node)} (hes : (es.map Prod.fst).Nodup)
    (hfits : ∀ e ∈ es, Tree.NodeFits e.2)
    (hstart : Underway b3 st N v₀ levels es dest w₁ h es w₁ h) :
    Leads ok (es.forM (placeEntry Machine.os st intent write dest)) (fun r w' h' =>
      Written st N w₁ h dest w' h' ∧ match r with
        | .ok () => ∃ l, expandEntries st v₀ (expand b3 st v₀ levels) es = .ok l ∧
          Reflects st v₀ l (view w'.session.os.volume dest) ∧
          Counted w₁.stats (l.map Prod.snd) w'.stats
        | .error e => w₁.session.os.Calm →
          expandEntries st v₀ (expand b3 st v₀ levels) es = .error e) w₁ h := by
  refine leads_forM (I := fun rest w h' => Underway b3 st N v₀ levels es dest w₁ h rest w h')
    (fun e rest w h hI => ?_) (fun w _ hI => ⟨hI.written, ?_⟩) es w₁ h hstart
  · have he : e ∈ es := by
      obtain ⟨done, l, hsplit, -⟩ := hI.progress
      exact hsplit ▸ List.mem_append_right _ List.mem_cons_self
    refine (placeEntry_leads hwrite hI.written.sound hI.same (hI.vacant hes hclear)
      (hfits e he)).mono ?_
    rintro (err | u) w' h' hend
    · refine ⟨hI.written.trans hend.1 (List.prefix_append _ _), fun hc => hI.fails (hend.2 ?_)⟩
      exact hI.written.continues.calm.2 hc
    · exact hI.place hes hclear hend
  · obtain ⟨done, l, hsplit, hl, hreflects, hcounted⟩ := hI.progress
    rw [List.append_nil] at hsplit
    exact ⟨l, hsplit ▸ hl, hreflects, hcounted⟩

end Loop

/-- A directory that was just created holds nothing. -/
theorem reflects_new {v : Volume String} {dest : Path} (hfree : v.Free dest)
    (he : ∀ i, Entry.dir [] = Entry.file i → i < v.next) :
    Reflects st v₀ [] (view (v.put dest (.dir []) hfree he) dest) := by
  have hroot : view (v.put dest (.dir []) hfree he) dest [] = some (.dir []) := by
    rw [view, List.append_nil, find_put, if_pos rfl]
    rfl
  refine ⟨hroot, fun x hx => (by cases hx), fun rel hrel => .inl ?_⟩
  by_contra hne
  refine hrel ?_
  rw [view, find_put, if_neg (by simpa using hne), find_below hfree.2.2 rel hne]
  rfl

/-- The tree of a digest, at a fresh place. -/
theorem materializeInto_leads : ∀ levels,
    Writes b3 st N ok v₀ levels (materializeInto Machine.os b3 st intent levels)
  | 0 => fun d dest w h hs _ _ => leads_ofExcept ⟨.start hs, fun _ => rfl⟩
  | levels + 1 => fun d dest w h hs hsame hvacant => by
    have hw : Written st N w h dest w h := .start hs
    refine leads_call_bind (acts_createDir (fun e he => ?_) fun hfree he hnone => ?_)
    · refine Traced.leads_emit_bind fun _ => leads_check_bind (fun _ h => by cases h) fun _ _ => ?_
      exact ⟨hw.calls.emit _, fun hc => absurd hvacant.none (he hc hvacant.free)⟩
    refine Traced.leads_emit_bind fun _ => leads_check_bind (fun _ _ => ?_) fun _ h => by cases h
    have hdir : (w.session.os.volume.put dest (.dir []) hfree he).find dest = some (.dir []) :=
      (find_put hfree he).trans (if_pos rfl)
    have hw₁ : Written st N w h dest ⟨⟨w.session.os.after
        (w.session.os.volume.put dest (.dir []) hfree he), w.session.caps⟩,
        { w.stats with dirs := w.stats.dirs + 1 }⟩ (h ++ [.createDir dest (.ok ())]) :=
      (hw.changed hvacant.clear.1 ((Continues.refl _).after _) (beside_put hfree he rfl)
        (.inl fun i hi => by cases hdir.symm.trans hi)).emit _
    have hsame₁ := hsame.trans (hw₁.same hvacant.clear)
    refine leads_act_bind ?_
    refine leads_call_bind (acts_query (fun e hf => ?_) ?_)
    · refine leads_ofExcept_bind (fun t ht => ?_) fun err _ => ⟨hw₁.calls, hw₁.calm hf⟩
      obtain ⟨bytes, hbytes, -⟩ := st.treeOf_ok b3 ht
      cases hbytes
    · have htree : treeOf b3 st d (readable (w.session.os.volume.put dest (.dir []) hfree he)
          (st.objectPath d)) = treeAt b3 st v₀ d := congrArg _ (hsame₁.read d)
      refine leads_ofExcept_bind (fun t ht => ?_) fun err herr => ⟨hw₁.calls, fun _ => ?_⟩
      · have hat : treeAt b3 st v₀ d = .ok t := htree.symm.trans ht
        have hfits : t.Fits := by
          obtain ⟨bytes, -, hdecode, -⟩ := st.treeOf_ok b3 ht
          exact Tree.fits_of_decode hdecode
        refine Leads.mono (placeEntries_leads (materializeInto_leads levels) hvacant.clear
          t.entries.keys_nodup hfits.2 ⟨.start hw₁.sound, hsame₁, [], [], rfl, rfl,
            reflects_new hfree he, ?_⟩) ?_
        · exact ⟨(UInt64.add_zero _).symm, (UInt64.add_zero _).symm, (UInt64.add_zero _).symm,
            (UInt64.add_zero _).symm⟩
        · rintro (err | u) w' h' ⟨hw', hres⟩
          · refine ⟨hw₁.calls.trans hw' (List.prefix_refl _), fun hc => ?_⟩
            rw [expand, hat]
            exact hres (hw₁.continues.calm.2 hc)
          · obtain ⟨l, hl, hreflects, hcounted⟩ := hres
            refine ⟨hw₁.calls.trans hw' (List.prefix_refl _), l, ?_, hreflects, hcounted⟩
            rw [expand, hat]
            exact hl
      · have hat : treeAt b3 st v₀ d = .error err := htree.symm.trans herr
        rw [expand, hat]
        rfl

end Entries

section Whole

variable {w : World Machine} {h : List FsEvent} {d : Digest} {dest : Path}

/-- What writing a tree to any place out of the store comes to. -/
def Materialized (b3 : Blake3) (st : ObjectStore) (N : Digest → List UInt8 → Prop) (d : Digest)
    (dest : Path) (w : World Machine) (h : List FsEvent) (r : Except CasError MaterializeStats)
    (w' : World Machine) (h' : List FsEvent) : Prop :=
  Written st N w h dest w' h' ∧ SameObjects st w.session.os.volume w'.session.os.volume ∧
    (w.session.os.volume.Free dest → w.session.os.volume.find dest = none → match r with
      | .ok stats => ∃ l, expand b3 st w.session.os.volume (maxDepth + 1) d = .ok l ∧
        Reflects st w.session.os.volume l (view w'.session.os.volume dest) ∧
        Counted { MaterializeStats.zero with dirs := 1 } (l.map Prod.snd) stats
      | .error e => w.session.os.Calm →
        expand b3 st w.session.os.volume (maxDepth + 1) d = .error e)

/-- Where something stands, or no directory to put it in, nothing is written. -/
theorem createDir_taken (levels : ℕ) (hs : Sound st N w.session.os.volume)
    (hnot : ¬(w.session.os.volume.Free dest ∧ w.session.os.volume.find dest = none)) :
    Leads ok (materializeInto Machine.os b3 st intent (levels + 1) d dest)
      (fun r w' h' => Written st N w h dest w' h' ∧ w'.session.os.volume = w.session.os.volume ∧
        ∃ e, r = .error e) w h := by
  refine leads_call_bind (acts_createDir (fun e _ => ?_) fun hfree _ hnone => ?_)
  · exact Traced.leads_emit_bind fun _ => leads_check_bind (fun _ h => by cases h) fun _ _ =>
      ⟨(Written.start hs).calls.emit _, rfl, _, rfl⟩
  · exact absurd ⟨hfree, hnone⟩ hnot

theorem materializeTree_leads (hs : Sound st N w.session.os.volume) (hout : ¬st.Inside dest) :
    Leads ok (ObjectStore.materializeTree Machine.os b3 st intent d dest)
      (Materialized b3 st N d dest w h) w h := by
  have hw : Written st N w h dest w h := .start hs
  have hsame : SameObjects st w.session.os.volume w.session.os.volume :=
    ⟨fun _ => rfl, fun _ => rfl⟩
  have hgo : Leads ok (do
      count fun _ => .zero
      materializeInto Machine.os b3 st intent (maxDepth + 1) d dest
      Traced.act fun w => (w.stats, w)) (Materialized b3 st N d dest w h)
      { w with session := { w.session with os := w.session.os.after w.session.os.volume } } h := by
    refine leads_act_bind (leads_bind ?_)
    by_cases hcan : w.session.os.volume.Free dest ∧ w.session.os.volume.find dest = none
    · have hvacant : Vacant st w.session.os.volume dest :=
        ⟨Storing.Sound.clear hs hout hcan.1, hcan.1, hcan.2⟩
      refine Leads.mono (materializeInto_leads (maxDepth + 1) d dest _ _ hs hsame hvacant) ?_
      rintro (e | u) w' h' ⟨hw', hres⟩
      · exact ⟨(hw.calls.counted .zero).trans hw' (List.prefix_refl _), hw'.same hvacant.clear,
          fun _ _ hc => hres hc⟩
      · refine leads_act ⟨(hw.calls.counted .zero).trans hw' (List.prefix_refl _),
          hw'.same hvacant.clear, fun _ _ => ?_⟩
        exact hres
    · refine Leads.mono (createDir_taken maxDepth hs hcan) ?_
      rintro _ w' h' ⟨hw', hv, e, rfl⟩
      have hsame' : SameObjects st w.session.os.volume w'.session.os.volume := by
        rw [hv]
        exact hsame
      exact ⟨(hw.calls.counted .zero).trans hw' (List.prefix_refl _), hsame',
        fun hfree hnone => absurd ⟨hfree, hnone⟩ hcan⟩
  refine leads_call_bind (acts_forget (acts_query (fun e _ => hgo) ?_))
  rcases hfind : w.session.os.volume.find dest with _ | e
  · exact hgo
  · refine leads_ofExcept ⟨hw.calls, hsame, fun _ hnone => ?_⟩
    rw [hfind] at hnone
    cases hnone

end Whole

end ObjectStore

end Jetrun
