import Jetrun.Machine
import Jetrun.Lib.Traced

/-!
# What one call does

For each call of the operating system, what holds after it if it succeeds, and why it may fail. On a
`Calm` machine no call fails by itself: then it fails only for what it finds on the volume.
-/

namespace Jetrun

open Traced Volumes Volumes.Volume

namespace Machine

/-- No call fails by itself. -/
def Calm (m : Machine) : Prop := ∀ n, (m.script n).fault = none

/-- No call fails by itself from one machine to the same machine some calls later. -/
def Steady (m m' : Machine) : Prop :=
  ∀ n, m.clock ≤ n → n < m'.clock → (m.script n).fault = none

@[simp] theorem after_volume (m : Machine) (v : Volume String) : (m.after v).volume = v := rfl

@[simp] theorem after_script (m : Machine) (v : Volume String) : (m.after v).script = m.script := rfl

@[simp] theorem after_privileged (m : Machine) (v : Volume String) :
    (m.after v).privileged = m.privileged := rfl

@[simp] theorem calm_after {m : Machine} {v : Volume String} : (m.after v).Calm ↔ m.Calm := Iff.rfl

/-- The same machine some calls later. -/
structure Continues (m m' : Machine) : Prop where
  script : m'.script = m.script
  privileged : m'.privileged = m.privileged

namespace Continues

variable {m m' m'' : Machine}

theorem refl (m : Machine) : Continues m m := ⟨rfl, rfl⟩

theorem trans (h : Continues m m') (h' : Continues m' m'') : Continues m m'' :=
  ⟨h'.script.trans h.script, h'.privileged.trans h.privileged⟩

theorem after (h : Continues m m') (v : Volume String) : Continues m (m'.after v) :=
  ⟨h.script, h.privileged⟩

theorem calm (h : Continues m m') : m'.Calm ↔ m.Calm := by
  unfold Calm
  rw [h.script]

end Continues

variable {α : Type} {m : Machine}

section Rules

variable {Q : Except IoError α → Machine → Prop}

theorem not_calm_of_fault {e : IoError} (h : m.moment.fault = some e) : ¬m.Calm := fun hcalm => by
  rw [moment, hcalm m.clock] at h
  cases h

/-- A call by what the script says of it. -/
theorem acts_ask_scripted {go : Machine → Except IoError α × Volume String}
    {broken : Machine → Volume String}
    (hfault : ∀ e, m.moment.fault = some e → Q (.error e) (m.after (broken m)))
    (hgo : m.moment.fault = none → Q (go m).1 (m.after (go m).2)) : Acts (ask go broken) Q m := by
  unfold Acts ask
  rcases hf : m.moment.fault with _ | e
  · exact hgo hf
  · exact hfault e hf

theorem acts_query_scripted {go : Machine → Except IoError α}
    (hfault : ∀ e, m.moment.fault = some e → Q (.error e) (m.after m.volume))
    (hgo : m.moment.fault = none → Q (go m) (m.after m.volume)) : Acts (query go) Q m :=
  acts_ask_scripted hfault hgo

theorem acts_change_scripted {go : Machine → Except IoError α × Volume String}
    (hfault : ∀ e, m.moment.fault = some e → Q (.error e) (m.after m.volume))
    (hgo : m.moment.fault = none → Q (go m).1 (m.after (go m).2)) : Acts (change go) Q m :=
  acts_ask_scripted hfault hgo

theorem acts_ask {go : Machine → Except IoError α × Volume String} {broken : Machine → Volume String}
    (hfault : ∀ e, ¬m.Calm → Q (.error e) (m.after (broken m)))
    (hgo : Q (go m).1 (m.after (go m).2)) : Acts (ask go broken) Q m :=
  acts_ask_scripted (fun e hf => hfault e (not_calm_of_fault hf)) fun _ => hgo

theorem acts_query {go : Machine → Except IoError α}
    (hfault : ∀ e, ¬m.Calm → Q (.error e) (m.after m.volume))
    (hgo : Q (go m) (m.after m.volume)) : Acts (query go) Q m := acts_ask hfault hgo

/-- Whatever it answers, a query leaves the volume alone. -/
theorem acts_query_any {go : Machine → Except IoError α} (h : ∀ r, Q r (m.after m.volume)) :
    Acts (query go) Q m :=
  acts_query (fun _ _ => h _) (h _)

theorem acts_change {go : Machine → Except IoError α × Volume String}
    (hfault : ∀ e, ¬m.Calm → Q (.error e) (m.after m.volume))
    (hgo : Q (go m).1 (m.after (go m).2)) : Acts (change go) Q m := acts_ask hfault hgo

/-- A call whose result is dropped. -/
theorem acts_forget {call : StateM Machine (Except IoError α)}
    {Q : Except IoError Unit → Machine → Prop}
    (h : Acts call (fun r m' => Q (r.map fun _ => ()) m') m) : Acts (forget call) Q m := h

end Rules

section Files

variable {p src dst : Path}

theorem fileAt_eq_ok {v : Volume String} {i : ℕ} (h : v.find p = some (.file i)) :
    fileAt v p = .ok i := by
  simp [fileAt, h]

theorem acts_pathExists {Q : Bool → Machine → Prop}
    (hQ : ∀ b, (b = true → m.volume.find p ≠ none) →
      (m.Calm → ∀ i, m.volume.find p = some (.file i) → b = true) → Q b (m.after m.volume)) :
    Acts (pathExists p) Q m := by
  refine acts_bind (acts_query (fun e hf => ?_) ?_)
  · exact hQ false (fun h => by cases h) fun hcalm => absurd hcalm hf
  · rcases hp : m.volume.find p with _ | (i | _ | _ | _)
    · exact hQ false (fun h => by cases h) fun _ i hi => by rw [hp] at hi; cases hi
    · exact hQ true (fun _ => by simp [hp]) fun _ _ _ => rfl
    · exact hQ true (fun _ => by simp [hp]) fun _ _ _ => rfl
    · exact hQ false (fun h => by cases h) fun _ i hi => by rw [hp] at hi; cases hi
    · exact hQ true (fun _ => by simp [hp]) fun _ _ _ => rfl

theorem acts_removeFile_scripted {Q : Except IoError Unit → Machine → Prop}
    (hfault : ∀ e, m.moment.fault = some e → Q (.error e) (m.after m.volume))
    (hdir : m.volume.isDir p = true → Q (.error eisdir) (m.after m.volume))
    (hnone : m.volume.find p = none → Q (.error .notFound) (m.after m.volume))
    (hok : m.moment.fault = none → ∀ hp, Q (.ok ()) (m.after (m.volume.erase p hp))) :
    Acts (removeFile p) Q m := by
  refine acts_change_scripted hfault fun hf => ?_
  simp only []
  split_ifs with hp h
  · exact hnone h
  · exact hok hf hp
  · exact hdir (by simpa using hp)

theorem acts_removeFile {Q : Except IoError Unit → Machine → Prop}
    (hfail : ∀ e, (m.Calm → m.volume.isDir p = false → e = .notFound ∧ m.volume.find p = none) →
      Q (.error e) (m.after m.volume))
    (hok : ∀ hp, Q (.ok ()) (m.after (m.volume.erase p hp))) : Acts (removeFile p) Q m := by
  refine acts_removeFile_scripted (fun e hf => hfail e fun hcalm => ?_) (fun hdir => ?_)
    (fun hnone => hfail _ fun _ _ => ⟨rfl, hnone⟩) fun _ => hok
  · exact absurd hcalm (not_calm_of_fault hf)
  · refine hfail _ fun _ h => ?_
    rw [hdir] at h
    cases h

theorem acts_createDir {Q : Except IoError Unit → Machine → Prop}
    (hfail : ∀ e, (m.Calm → m.volume.Free p → m.volume.find p ≠ none) →
      Q (.error e) (m.after m.volume))
    (hok : ∀ (hp : m.volume.Free p) (he : ∀ i, Entry.dir [] = Entry.file i → i < m.volume.next),
      m.volume.find p = none → Q (.ok ()) (m.after (m.volume.put p (.dir []) hp he))) :
    Acts (createDir p) Q m := by
  refine acts_change (fun e hf => hfail e fun hcalm => absurd hcalm hf) ?_
  unfold mkdir
  split_ifs with h
  · exact hok h.1 (by simp) h.2
  · exact hfail _ fun _ hfree hnone => h ⟨hfree, hnone⟩

theorem mkdirAll_append {v : Volume String} {ps : List Path} (h : ∀ q ∈ ps, v.isDir q = true)
    (qs : List Path) : mkdirAll v (ps ++ qs) = mkdirAll v qs := by
  induction ps with
  | nil => rfl
  | cons q ps ih =>
    rw [List.cons_append, mkdirAll, if_pos (h q List.mem_cons_self)]
    exact ih fun r hr => h r (List.mem_cons_of_mem _ hr)

/-- Only the last directory may be missing. -/
theorem acts_createDirAll_scripted {Q : Except IoError Unit → Machine → Prop}
    (hparent : m.volume.isDir p.dropLast = true) (hp : p ≠ [])
    (hdir : ∀ e, m.volume.find p = some e → ∃ odd, e = .dir odd)
    (hfault : ∀ e, m.moment.fault = some e → Q (.error e) (m.after m.volume))
    (hthere : m.moment.fault = none → m.volume.isDir p = true → Q (.ok ()) (m.after m.volume))
    (hnew : m.moment.fault = none →
      ∀ (hp : m.volume.Free p) (he : ∀ i, Entry.dir [] = Entry.file i → i < m.volume.next),
        m.volume.find p = none → Q (.ok ()) (m.after (m.volume.put p (.dir []) hp he))) :
    Acts (createDirAll p) Q m := by
  refine acts_change_scripted hfault fun hf => ?_
  have hinits : p.inits = p.dropLast.inits ++ [p] := by
    conv_lhs => rw [← List.dropLast_append_getLast hp]
    rw [List.inits_append]
    simp [List.dropLast_append_getLast hp]
  simp only [hinits]
  rw [mkdirAll_append fun q hq => isDir_of_prefix hparent ((List.mem_inits _ _).1 hq)]
  unfold mkdirAll
  split_ifs with h
  · exact hthere hf h
  · rcases hfind : m.volume.find p with _ | e
    · have hfree : m.volume.Free p := ⟨hp, hparent, by simpa using h⟩
      simp only [mkdir, dif_pos (And.intro hfree hfind), mkdirAll]
      exact hnew hf hfree (by simp) hfind
    · obtain ⟨odd, rfl⟩ := hdir e hfind
      exact absurd (isDir_of_find hfind) h

theorem acts_createDirAll {Q : Except IoError Unit → Machine → Prop}
    (hparent : m.volume.isDir p.dropLast = true) (hp : p ≠ [])
    (hdir : ∀ e, m.volume.find p = some e → ∃ odd, e = .dir odd)
    (hfault : ∀ e, ¬m.Calm → Q (.error e) (m.after m.volume))
    (hthere : m.volume.isDir p = true → Q (.ok ()) (m.after m.volume))
    (hnew : ∀ (hp : m.volume.Free p) (he : ∀ i, Entry.dir [] = Entry.file i → i < m.volume.next),
      m.volume.find p = none → Q (.ok ()) (m.after (m.volume.put p (.dir []) hp he))) :
    Acts (createDirAll p) Q m :=
  acts_createDirAll_scripted hparent hp hdir (fun e hf => hfault e (not_calm_of_fault hf))
    (fun _ => hthere) fun _ => hnew

theorem acts_symlink {Q : Except IoError Unit → Machine → Prop} {target : String}
    (hfail : ∀ e, (m.Calm → m.volume.Free p → target ≠ "" → m.volume.find p ≠ none) →
      Q (.error e) (m.after m.volume))
    (hok : ∀ (hp : m.volume.Free p)
      (he : ∀ i, Entry.symlink (Utf8.encode target) = Entry.file i → i < m.volume.next),
      m.volume.find p = none →
      Q (.ok ()) (m.after (m.volume.put p (.symlink (Utf8.encode target)) hp he))) :
    Acts (symlink target p) Q m := by
  refine acts_change (fun e hf => hfail e fun hcalm => absurd hcalm hf) ?_
  simp only []
  split_ifs with h
  · exact hok h.1 (by simp) h.2.1
  · exact hfail _ fun _ hfree htarget hnone => h ⟨hfree, hnone, htarget⟩

theorem acts_hardLink {Q : Except IoError Unit → Machine → Prop} {i : ℕ}
    (hi : m.volume.find src = some (.file i))
    (hfail : ∀ e, (m.Calm → m.volume.Free dst → m.volume.find dst = none → Link.isUnlinkable e) →
      Q (.error e) (m.after m.volume))
    (hok : ∀ (hp : m.volume.Free dst) (he : ∀ j, Entry.file i = Entry.file j → j < m.volume.next),
      m.volume.find dst = none → Q (.ok ()) (m.after (m.volume.put dst (.file i) hp he))) :
    Acts (hardLink src dst) Q m := by
  refine acts_change (fun e hf => hfail e fun hcalm => absurd hcalm hf) ?_
  simp only []
  split
  · next i' hi' =>
    obtain rfl : i = i' := by simpa using hi.symm.trans hi'
    rcases m.support.link src dst with _ | ⟨e, he⟩
    · simp only []
      split_ifs with h
      · exact hok h.1 (by rintro _ ⟨rfl⟩; exact Volume.lt_next hi) h.2
      · exact hfail _ fun _ hfree hnone => absurd ⟨hfree, hnone⟩ h
    · refine hfail _ fun _ _ hnone => ?_
      rwa [hnone, Option.isSome_none, if_neg (by simp)]
  · next h' h =>
    exact absurd (Option.some.inj (hi.symm.trans h)).symm (h' i)
  · next h =>
    rw [hi] at h
    cases h

end Files

section Writes

variable {p src dst : Path}

/-- A file that was opened for writing, and is empty. -/
structure Opened (v₀ : Volume String) (p : Path) (j : ℕ) (v : Volume String) : Prop where
  replacing : Replacing v₀ p v
  find : v.find p = some (.file j)
  content : (v.inode j).content = []

theorem acts_createNew {Q : Except IoError Unit → Machine → Prop} {v₀ : Volume String}
    (h : Replacing v₀ p m.volume)
    (hfail : ∀ e, (m.Calm → m.volume.find p ≠ none) → Q (.error e) (m.after m.volume))
    (hok : ∀ j v, Opened v₀ p j v → Q (.ok ()) (m.after v)) : Acts (createNew p) Q m := by
  refine acts_change (fun e hf => hfail e fun hcalm => absurd hcalm hf) ?_
  simp only []
  split_ifs with hp
  · refine hok m.volume.next _ ⟨h.create hp.1, ?_, ?_⟩
    · rw [Volume.find_create, if_pos rfl]
    · rw [Volume.inode_create, if_pos rfl]
  · exact hfail _ fun _ hnone => hp ⟨h.spot.free, hnone⟩

theorem acts_ficlone {Q : Except IoError Unit → Machine → Prop} {v₀ : Volume String} {i j : ℕ}
    (h : Replacing v₀ dst m.volume) (hi : m.volume.find src = some (.file i))
    (hj : m.volume.find dst = some (.file j))
    (hfail : ∀ e, (m.Calm → Link.isUnsupported e) → Q (.error e) (m.after m.volume))
    (hok : ∀ v, Replacing v₀ dst v → v.find dst = some (.file j) →
      (v.inode j).content = (m.volume.inode i).content → Q (.ok ()) (m.after v)) :
    Acts (ficlone src dst) Q m := by
  refine acts_change (fun e hf => hfail e fun hcalm => absurd hcalm hf) ?_
  simp only [fileAt_eq_ok hi, fileAt_eq_ok hj]
  rcases m.support.clone src dst with _ | ⟨e, he⟩
  · refine hok _ (h.setInode hj) hj ?_
    rw [Volume.inode_setInode, if_pos rfl]
  · exact hfail e fun _ => he

/-- Opening for writing takes what may be written to, or a free place. -/
def Writable (m : Machine) (p : Path) : Prop :=
  m.volume.find p = none ∨ ∃ i, m.volume.find p = some (.file i) ∧
    (m.privileged ∨ (m.volume.inode i).mode &&& Inodes.ownerWrite ≠ 0)

theorem openTruncate_cases {v₀ : Volume String} (h : Replacing v₀ p m.volume) (mode : ℕ) :
    (∃ e, m.openTruncate mode p = (.error e, m.volume) ∧ ¬m.Writable p) ∨
      ∃ j v, m.openTruncate mode p = (.ok j, v) ∧ Opened v₀ p j v ∧ m.Writable p := by
  simp only [openTruncate, Writable]
  rcases hp : m.volume.find p with _ | e
  · refine .inr ⟨_, _, dif_pos h.spot.free, ⟨h.create h.spot.free, ?_, ?_⟩, .inl rfl⟩
    · rw [Volume.find_create, if_pos rfl]
    · rw [Volume.inode_create, if_pos rfl]
  · obtain ⟨i, rfl⟩ := h.spot.file e hp
    by_cases hw : m.privileged ∨ (m.volume.inode i).mode &&& Inodes.ownerWrite ≠ 0
    · refine .inr ⟨i, _, if_pos (by simpa using hw), ⟨h.setInode hp, hp, ?_⟩, .inr ⟨i, rfl, hw⟩⟩
      rw [Volume.inode_setInode, if_pos rfl]
    · refine .inl ⟨.permissionDenied, if_neg (by simpa using hw), ?_⟩
      rintro (hnone | ⟨j, hj, hw'⟩)
      · cases hnone
      · cases hj
        exact hw hw'

theorem acts_openWrite_scripted {Q : Except IoError ℕ → Machine → Prop} {v₀ : Volume String}
    (h : Replacing v₀ p m.volume)
    (hfault : ∀ e, m.moment.fault = some e → Q (.error e) (m.after m.volume))
    (hdenied : ∀ e, ¬m.Writable p → Q (.error e) (m.after m.volume))
    (hok : m.moment.fault = none → ∀ j v, m.openTruncate createMode p = (.ok j, v) →
      Opened v₀ p j v → m.Writable p → Q (.ok j) (m.after v)) : Acts (openWrite p) Q m := by
  refine acts_change_scripted hfault fun hf => ?_
  rcases openTruncate_cases h createMode with ⟨e, he, hw⟩ | ⟨j, v, hv, hopen, hw⟩
  · rw [he]
    exact hdenied e hw
  · rw [hv]
    exact hok hf j v hv hopen hw

theorem acts_openWrite {Q : Except IoError ℕ → Machine → Prop} {v₀ : Volume String}
    (h : Replacing v₀ p m.volume)
    (hfail : ∀ e, (m.Calm → ¬m.Writable p) → Q (.error e) (m.after m.volume))
    (hok : ∀ j v, Opened v₀ p j v → m.Writable p → Q (.ok j) (m.after v)) :
    Acts (openWrite p) Q m :=
  acts_openWrite_scripted h (fun e hf => hfail e fun hcalm => absurd hcalm (not_calm_of_fault hf))
    (fun e hw => hfail e fun _ => hw) fun _ j v _ => hok j v

/-- The owner may still write to a file that was opened. -/
theorem openTruncate_mode {mode j : ℕ} {v : Volume String} (h : m.openTruncate mode p = (.ok j, v))
    (hpriv : m.privileged = false) (hmode : mode &&& Inodes.ownerWrite ≠ 0) :
    (v.inode j).mode &&& Inodes.ownerWrite ≠ 0 := by
  unfold openTruncate at h
  simp only [] at h
  split at h
  · next i _ =>
    split_ifs at h with hw
    · obtain ⟨rfl, rfl⟩ : i = j ∧ _ = v := by simpa using h
      rw [Volume.inode_setInode, if_pos rfl]
      simpa [hpriv] using hw
    · cases (Prod.mk.inj h).1
  · cases (Prod.mk.inj h).1
  · split_ifs at h with hfree
    · obtain ⟨rfl, rfl⟩ : m.volume.next = j ∧ _ = v := by simpa using h
      rw [Volume.inode_create, if_pos rfl]
      exact hmode
    · cases (Prod.mk.inj h).1

/-- A copy, complete or not, fills one file or leaves it alone. -/
theorem copyFile_cases {v₀ : Volume String} (h : Replacing v₀ dst m.volume) {i : ℕ}
    (hi : m.volume.find src = some (.file i)) (hne : src ≠ dst) (limit : Option ℕ) :
    (∃ e, m.copyFile src dst limit = (.error e, m.volume) ∧ ¬m.Writable dst) ∨
      ∃ v j, m.copyFile src dst limit = (.ok (), v) ∧ Replacing v₀ dst v ∧
        v.find dst = some (.file j) ∧ (v.inode j).content
          = (m.volume.inode i).content.take (limit.getD (m.volume.inode i).content.length) := by
  have hi₀ : v₀.find src = some (.file i) := (h.find_eq hne).symm.trans hi
  unfold copyFile
  rw [fileAt_eq_ok hi]
  simp only []
  rcases openTruncate_cases h (m.volume.inode i).mode with ⟨e, he, hw⟩ | ⟨j, v, hv, hopen, -⟩
  · rw [he]
    exact .inl ⟨e, rfl, hw⟩
  · rw [hv]
    refine .inr ⟨_, j, rfl, hopen.replacing.setInode hopen.find, hopen.find, ?_⟩
    rw [Volume.inode_setInode, if_pos rfl, hopen.replacing.inode_eq hne hi₀, h.inode_eq hne hi₀]

theorem acts_copy {Q : Except IoError Unit → Machine → Prop} {v₀ : Volume String}
    (h : Replacing v₀ dst m.volume) {i : ℕ} (hi : m.volume.find src = some (.file i))
    (hne : src ≠ dst)
    (hfail : ∀ e v, Replacing v₀ dst v → (m.Calm → ¬m.Writable dst) → Q (.error e) (m.after v))
    (hok : ∀ v j, Replacing v₀ dst v → v.find dst = some (.file j) →
      (v.inode j).content = (m.volume.inode i).content → Q (.ok ()) (m.after v)) :
    Acts (copy src dst) Q m := by
  refine acts_ask (fun e hf => ?_) ?_
  · refine hfail e _ ?_ fun hcalm => absurd hcalm hf
    split_ifs
    · rcases copyFile_cases h hi hne m.moment.moved with ⟨e, he, -⟩ | ⟨v, j, hv, hrep, -⟩
      · rw [he]
        exact h
      · rw [hv]
        exact hrep
    · exact h
  · rcases copyFile_cases h hi hne none with ⟨e, he, hw⟩ | ⟨v, j, hv, hrep, hj, hcontent⟩
    · rw [he]
      exact hfail e _ h fun _ => hw
    · rw [hv]
      rw [Option.getD_none, List.take_length] at hcontent
      exact hok v j hrep hj hcontent

/-- What was added to an open file. -/
theorem opened_append {v₀ v : Volume String} {j : ℕ} (h : Opened v₀ p j v) (bytes : List UInt8) :
    Replacing v₀ p (m.append v j bytes) ∧ (m.append v j bytes).find p = some (.file j) ∧
      ((m.append v j bytes).inode j).content = bytes := by
  refine ⟨h.replacing.setInode h.find, h.find, ?_⟩
  rw [append, Volume.inode_setInode, if_pos rfl, h.content, List.nil_append]

theorem acts_setPermissions_scripted {Q : Except IoError Unit → Machine → Prop}
    {v₀ : Volume String} {mode i : ℕ} (h : Replacing v₀ p m.volume)
    (hi : m.volume.find p = some (.file i))
    (hfault : ∀ e, m.moment.fault = some e → Q (.error e) (m.after m.volume))
    (hok : m.moment.fault = none → ∀ v, Replacing v₀ p v → v.find p = some (.file i) →
      (v.inode i).content = (m.volume.inode i).content → (v.inode i).mode = mode →
      Q (.ok ()) (m.after v)) : Acts (setPermissions p mode) Q m := by
  refine acts_change_scripted hfault fun hf => ?_
  simp only [hi]
  refine hok hf _ (h.setInode hi) hi ?_ ?_
  · rw [Volume.inode_setInode, if_pos rfl]
  · rw [Volume.inode_setInode, if_pos rfl]

theorem acts_setPermissions {Q : Except IoError Unit → Machine → Prop} {v₀ : Volume String}
    {mode i : ℕ} (h : Replacing v₀ p m.volume) (hi : m.volume.find p = some (.file i))
    (hfault : ∀ e, ¬m.Calm → Q (.error e) (m.after m.volume))
    (hok : ∀ v, Replacing v₀ p v → v.find p = some (.file i) →
      (v.inode i).content = (m.volume.inode i).content → (v.inode i).mode = mode →
      Q (.ok ()) (m.after v)) : Acts (setPermissions p mode) Q m :=
  acts_setPermissions_scripted h hi (fun e hf => hfault e (not_calm_of_fault hf)) fun _ => hok

theorem acts_rename_scripted {Q : Except IoError Unit → Machine → Prop} {q : Path} {i : ℕ}
    (hi : m.volume.find p = some (.file i)) (hspot : Spot m.volume p) (hqp : q ≠ p)
    (hfree : m.volume.Free q)
    (hfault : ∀ e, m.moment.fault = some e → Q (.error e) (m.after m.volume))
    (hok : m.moment.fault = none →
      ∀ hp hq he, Q (.ok ()) (m.after ((m.volume.erase p hp).put q (.file i) hq he))) :
    Acts (rename p q) Q m := by
  refine acts_change_scripted hfault fun hf => ?_
  simp only []
  split
  · next j hj =>
    obtain rfl : i = j := by simpa using hi.symm.trans hj
    have hne : m.volume.find q ≠ some (.file i) := fun hq => hqp (hspot.owned i hi q hq)
    have hp := hspot.free.2.2
    have hparent : q.dropLast ≠ p := by
      rintro rfl
      rw [hfree.2.1] at hp
      cases hp
    have hq : (m.volume.erase p hp).Free q :=
      ⟨hfree.1, (isDir_erase hp hparent).trans hfree.2.1, (isDir_erase hp hqp).trans hfree.2.2⟩
    rw [if_neg hne, dif_pos hp, dif_pos hq]
    exact hok hf hp hq (by rintro _ ⟨rfl⟩; exact m.volume.allocated p i hi)
  · next h' h =>
    exact absurd (Option.some.inj (hi.symm.trans h)).symm (h' i)
  · next h =>
    rw [hi] at h
    cases h

theorem acts_rename {Q : Except IoError Unit → Machine → Prop} {q : Path} {i : ℕ}
    (hi : m.volume.find p = some (.file i)) (hspot : Spot m.volume p) (hqp : q ≠ p)
    (hfree : m.volume.Free q) (hfault : ∀ e, ¬m.Calm → Q (.error e) (m.after m.volume))
    (hok : ∀ hp hq he, Q (.ok ()) (m.after ((m.volume.erase p hp).put q (.file i) hq he))) :
    Acts (rename p q) Q m :=
  acts_rename_scripted hi hspot hqp hfree (fun e hf => hfault e (not_calm_of_fault hf)) fun _ => hok

end Writes

end Machine

namespace Link

open Machine

variable {src dst : Path} {i : ℕ} {intent : Intent} {m₀ : Machine} {s : Session Machine}

theorem acts_call {α : Type} {f : StateM Machine α} {Q : α → Session Machine → Prop}
    (h : Acts f (fun a m => Q a { s with os := m }) s.os) : Acts (call f) Q s := h

/-- Since `m₀` only what stands at the destination changed. If no call failed, nothing does. -/
structure Attempt (m₀ : Machine) (dst : Path) (m : Machine) : Prop where
  continues : Continues m₀ m
  replacing : Replacing m₀.volume dst m.volume
  clear : m₀.Calm → m.volume.find dst = none

/-- The file `i` was placed. Only a hard link shares its inode. -/
structure Placed (v₀ : Volume String) (dst : Path) (i : ℕ) (intent : Intent) (mode : LinkMode)
    (v : Volume String) : Prop where
  beside : Beside (· = dst) v₀ v
  file : ∃ j, v.find dst = some (.file j) ∧ (v.inode j).content = (v₀.inode i).content ∧
    (mode = .hardlink → j = i)
  shared : mode = .hardlink → intent = .overlayLower
  own : mode ≠ .hardlink → Spot v dst

/-- What an attempt to place a file comes to. -/
def Ends (m₀ : Machine) (dst : Path) (i : ℕ) (intent : Intent) (r : Except IoError LinkMode)
    (s : Session Machine) : Prop :=
  Continues m₀ s.os ∧ match r with
    | .ok mode => Placed m₀.volume dst i intent mode s.os.volume
    | .error _ => Replacing m₀.volume dst s.os.volume ∧ ¬m₀.Calm

section Steps

variable (hi : m₀.volume.find src = some (.file i)) (hne : src ≠ dst)

include hi hne

theorem Attempt.find_src {m : Machine} (h : Attempt m₀ dst m) :
    m.volume.find src = some (.file i) ∧ m.volume.inode i = m₀.volume.inode i :=
  ⟨(h.replacing.find_eq hne).trans hi, h.replacing.inode_eq hne hi⟩

theorem byCopy_ends (h : Attempt m₀ dst s.os) :
    Acts (byCopy Machine.os src dst) (Ends m₀ dst i intent) s := by
  obtain ⟨hsrc, hinode⟩ := h.find_src hi hne
  refine acts_bind (acts_call (acts_copy h.replacing hsrc hne (fun e v hrep hw => ?_)
    fun v j hrep hj hcontent => ?_))
  · refine ⟨h.continues.after v, hrep, fun hcalm => ?_⟩
    exact hw (h.continues.calm.2 hcalm) (.inl (h.clear hcalm))
  · refine ⟨h.continues.after v, hrep.beside, ⟨j, hj, ?_, fun hmode => ?_⟩, fun hmode => ?_,
      fun _ => hrep.spot⟩
    · exact hcontent.trans (congrArg Inode.content hinode)
    · cases hmode
    · cases hmode

theorem byHardlink_ends (h : Attempt m₀ dst s.os) :
    Acts (byHardlink Machine.os src dst intent) (Ends m₀ dst i intent) s := by
  obtain ⟨hsrc, hinode⟩ := h.find_src hi hne
  unfold byHardlink
  split_ifs with hintent
  · refine acts_bind (acts_call (acts_hardLink hsrc (fun e he => ?_) fun hp he hnone => ?_))
    · simp only []
      split_ifs with hun
      · exact byCopy_ends hi hne ⟨h.continues.after _, h.replacing, h.clear⟩
      · refine ⟨h.continues.after _, h.replacing, fun hcalm => hun ?_⟩
        exact he (h.continues.calm.2 hcalm) h.replacing.spot.free (h.clear hcalm)
    · have hbeside : Beside (· = dst) m₀.volume (s.os.volume.put dst (.file i) hp he) :=
        h.replacing.beside.trans (beside_put hp he rfl)
      refine ⟨h.continues.after _, hbeside, ⟨i, ?_, ?_, fun _ => rfl⟩, fun _ => hintent,
        fun hmode => absurd rfl hmode⟩
      · exact (Volume.find_put hp he).trans (if_pos rfl)
      · show (s.os.volume.inode i).content = _
        rw [hinode]
  · exact byCopy_ends hi hne h

variable (intent) in
/-- A clone leaves the file in place, or nothing that was not there before if it fails calmly. -/
theorem rawReflink_ends (h : Attempt m₀ dst s.os) :
    Acts (call (rawReflink Machine.os src dst)) (fun r s' => match r with
      | .ok () => Continues m₀ s'.os ∧ Placed m₀.volume dst i intent .reflink s'.os.volume
      | .error e => Attempt m₀ dst s'.os ∧ (m₀.Calm → isUnsupported e)) s := by
  obtain ⟨hsrc, hinode⟩ := h.find_src hi hne
  refine acts_call (acts_bind (acts_forget (acts_query (fun e hf => ?_) ?_)))
  · refine ⟨⟨h.continues.after _, h.replacing, h.clear⟩, fun hcalm => ?_⟩
    exact absurd (h.continues.calm.2 hcalm) hf
  · rw [fileAt_eq_ok hsrc]
    have h' : Attempt m₀ dst (s.os.after s.os.volume) :=
      ⟨h.continues.after _, h.replacing, h.clear⟩
    refine acts_bind (acts_createNew h'.replacing (fun e he => ?_) fun j v hopen => ?_)
    · refine ⟨⟨h'.continues.after _, h'.replacing, h'.clear⟩, fun hcalm => ?_⟩
      exact absurd (h'.clear hcalm) (he (h'.continues.calm.2 hcalm))
    · have hsrc' : v.find src = some (.file i) := (hopen.replacing.find_eq hne).trans hi
      refine acts_bind (acts_ficlone hopen.replacing hsrc' hopen.find (fun e he => ?_)
        fun v' hrep hj hcontent => ?_)
      · have hcont := (h'.continues.after v).after v
        refine acts_bind (acts_removeFile (fun e' he' => ?_) fun hp' => ?_)
        · refine ⟨⟨hcont.after v, hopen.replacing, fun hcalm => ?_⟩,
            fun hcalm => he (hcont.calm.2 hcalm)⟩
          exact (he' (hcont.calm.2 hcalm) hopen.replacing.spot.free.2.2).2
        · refine ⟨⟨hcont.after _, hopen.replacing.erase hp', fun _ => ?_⟩,
            fun hcalm => he (hcont.calm.2 hcalm)⟩
          exact (Volume.find_erase hp').trans (if_pos rfl)
      · refine ⟨(h'.continues.after v).after v', hrep.beside, ⟨j, hj, ?_, fun hmode => ?_⟩,
          fun hmode => ?_, fun _ => hrep.spot⟩
        · exact hcontent.trans (congrArg Inode.content (hopen.replacing.inode_eq hne hi))
        · cases hmode
        · cases hmode

theorem byReflink_ends (h : Attempt m₀ dst s.os) :
    Acts (byReflink Machine.os src dst intent) (Ends m₀ dst i intent) s := by
  refine acts_bind ?_
  show Acts (if s.caps.reflink = some false then _ else _) _ s
  split_ifs
  · exact byHardlink_ends hi hne h
  · refine acts_bind ((rawReflink_ends intent hi hne h).mono fun r s' hr => ?_)
    rcases r with e | u
    · simp only []
      split_ifs with hun
      · exact acts_bind (byHardlink_ends hi hne hr.1)
      · exact ⟨hr.1.continues, hr.1.replacing, fun hcalm => hun (hr.2 hcalm)⟩
    · exact hr

/-- However the calls end: the file is placed, or nothing but its destination changed. -/
theorem materialize_ends (hspot : Spot m₀.volume dst) (hs : s.os = m₀) :
    Acts (materialize Machine.os src dst intent) (Ends m₀ dst i intent) s := by
  subst hs
  refine acts_bind (acts_call (acts_removeFile (fun e he => ?_) fun hp => ?_))
  · have hcont : Continues s.os (s.os.after s.os.volume) := (Continues.refl _).after _
    have hnone : s.os.Calm → e = .notFound ∧ s.os.volume.find dst = none := fun hcalm =>
      he hcalm hspot.free.2.2
    cases e with
    | notFound =>
      exact byReflink_ends hi hne ⟨hcont, hspot.replacing, fun hcalm => (hnone hcalm).2⟩
    | _ => exact ⟨hcont, hspot.replacing, fun hcalm => absurd (hnone hcalm).1 (by simp)⟩
  · refine byReflink_ends hi hne ⟨(Continues.refl _).after _, hspot.replacing.erase hp, fun _ => ?_⟩
    exact (Volume.find_erase hp).trans (if_pos rfl)

end Steps

end Link

end Jetrun
