import Jetrun.Proofs.Gc
import Jetrun.Unlocked

/-!
# A collection with nobody beside it

A collection that is made at once (`ObjectStore.gc`) is one that is made in steps, with no insert in
between: the marking loop, each file of a directory, each directory, and then the whole
(`gc_alone`). The files of the store are told by their paths in the one, and by inodes in the other.
-/

namespace Jetrun

open Inodes ObjectStore

namespace Collection

/-- The same files, by their paths. -/
def Shows (modified : ℕ → ℕ) (fs : Files) (disk : Disk) : Prop :=
  ∀ p, disk.lookup p = (fs.file p).map fun i => ⟨(fs.inode i).content, modified i⟩

variable (b3 : Blake3) (st : ObjectStore) (modified : ℕ → ℕ) (clock : ℕ)

/-- A step of a collection with nobody beside it. -/
def alone (s : Files × Collection) (m : GcMove) : Option (Files × Collection) :=
  s.2.advance b3 st s.1 modified clock m

def Leads (s s' : Files × Collection) : Prop :=
  ∃ moves, Runs.exec (alone b3 st modified clock) s moves = some s'

/-- Where a collection is when a part of the sweep has ended like this. -/
def reached (next : Collector → Collection) (s : Collector) (r : Sweep × Option CasError) :
    Collection :=
  match r.2 with
  | none => next { s with stats := r.1.stats }
  | some e => .done (.error e)

variable {b3 st modified clock} {fs : Files} {disk : Disk}

theorem Leads.refl (s : Files × Collection) : Leads b3 st modified clock s s := ⟨[], rfl⟩

theorem Leads.trans {s₁ s₂ s₃ : Files × Collection} (h₁ : Leads b3 st modified clock s₁ s₂)
    (h₂ : Leads b3 st modified clock s₂ s₃) : Leads b3 st modified clock s₁ s₃ := by
  obtain ⟨moves₁, h₁⟩ := h₁
  obtain ⟨moves₂, h₂⟩ := h₂
  exact ⟨moves₁ ++ moves₂, Runs.exec_trans h₁ h₂⟩

theorem Leads.move {s s' : Files × Collection} {m : GcMove}
    (h : alone b3 st modified clock s m = some s') : Leads b3 st modified clock s s' :=
  ⟨[m], Runs.exec_cons h⟩

theorem Shows.erase (h : Shows modified fs disk) (path : Path) :
    Shows modified (fs.setFile path none) (disk.erase path) := fun p => by
  by_cases hp : p = path
  · rw [hp, AList.lookup_erase]
    simp [Fs.setFile]
  · rw [AList.lookup_erase_ne hp, h p]
    simp [Fs.setFile, Function.update_of_ne hp]

variable (b3 st clock)

theorem leads_entry (h : Shows modified fs disk) (s : Collector) (fanPath : Path)
    (entry : DirEntry) :
    let r := sweepEntry s.live s.now s.minAge fanPath entry ⟨disk, s.stats⟩
    ∃ fs', Leads b3 st modified clock (fs, .listing s fanPath)
      (fs', reached (fun s => .listing s fanPath) s r) ∧ Shows modified fs' r.1.disk := by
  have hnext : Leads b3 st modified clock (fs, .listing s fanPath)
      (fs, nextEntry fs modified s fanPath (some (.ok entry))) := .move (m := .entry _) rfl
  have hlookup : (if entry.metadata then disk.lookup (fanPath.push entry.name) else none) =
      (if entry.metadata then fs.file (fanPath.push entry.name) else none).map
        fun i => ⟨(fs.inode i).content, modified i⟩ := by
    split_ifs
    · exact h _
    · rfl
  simp only [nextEntry] at hnext
  simp only [sweepEntry, hlookup]
  rcases hd : fileDigest (fanPath.push entry.name) with _ | d <;> simp only [hd] at hnext ⊢
  · exact ⟨fs, hnext, h⟩
  by_cases hlive : d ∈ s.live
  · rw [if_pos hlive] at hnext ⊢
    exact ⟨fs, hnext, h⟩
  rw [if_neg hlive] at hnext ⊢
  rcases hfile : (if entry.metadata then fs.file (fanPath.push entry.name) else none) with _ | i
  · rw [hfile] at hnext
    exact ⟨fs, hnext, h⟩
  rw [hfile] at hnext
  simp only [Option.map_some] at hnext ⊢
  by_cases hyoung : (if entry.modified then s.now - modified i else 0) < s.minAge
  · rw [if_pos hyoung] at hnext ⊢
    exact ⟨fs, hnext, h⟩
  rw [if_neg hyoung] at hnext ⊢
  have hthere : fs.file (fanPath.push entry.name) = some i := by
    split_ifs at hfile
    exact hfile
  have hremove := hnext.trans (.move (m := .unlink) rfl)
  simp only [remove, Fs.unlink, hthere, Option.map_some] at hremove
  rcases hunlink : entry.unlink with _ | e
  · rw [hunlink] at hremove
    exact ⟨_, hremove, h.erase _⟩
  · rw [hunlink] at hremove
    cases e <;> exact ⟨_, hremove, h⟩

theorem leads_entries (fanPath : Path) : ∀ (entries : List (Except IoError DirEntry))
    {fs : Files} {disk : Disk}, Shows modified fs disk → ∀ s : Collector,
    let r := sweepEntries s.live s.now s.minAge fanPath entries ⟨disk, s.stats⟩
    ∃ fs', Leads b3 st modified clock (fs, .listing s fanPath) (fs', reached .sweeping s r) ∧
      Shows modified fs' r.1.disk
  | [], fs, _, h, s => ⟨fs, .move (m := .entry none) rfl, h⟩
  | .error e :: _, fs, _, h, s => ⟨fs, .move (m := .entry (some (.error e))) rfl, h⟩
  | .ok entry :: entries, fs, disk, h, s => by
    obtain ⟨fs₁, hentry, h₁⟩ := leads_entry b3 st clock h s fanPath entry
    rcases hr : sweepEntry s.live s.now s.minAge fanPath entry ⟨disk, s.stats⟩ with ⟨s₁, _ | e⟩ <;>
      simp only [sweepEntries, hr] at hentry h₁ ⊢
    · obtain ⟨fs₂, hentries, h₂⟩ := leads_entries fanPath entries h₁ { s with stats := s₁.stats }
      exact ⟨fs₂, hentry.trans hentries, h₂⟩
    · exact ⟨fs₁, hentry, h₁⟩

theorem leads_fans : ∀ (fans : List Fan) {fs : Files} {disk : Disk}, Shows modified fs disk →
    ∀ s : Collector, let r := st.sweepFans s.live s.now s.minAge fans ⟨disk, s.stats⟩
    ∃ fs', Leads b3 st modified clock (fs, .sweeping s)
      (fs', reached (fun s => .done (.ok s.stats)) s r) ∧ Shows modified fs' r.1.disk
  | [], fs, _, h, s => ⟨fs, .move (m := .fan none) rfl, h⟩
  | .failed e :: _, fs, _, h, s => ⟨fs, .move (m := .fan (some (.error e))) rfl, h⟩
  | .other :: fans, fs, _, h, s => by
    obtain ⟨fs₁, hfans, h₁⟩ := leads_fans fans h s
    exact ⟨fs₁, (Leads.move (m := .fan (some (.ok .other))) rfl).trans hfans, h₁⟩
  | .unreadable name e :: _, fs, _, h, s =>
    ⟨fs, .move (m := .fan (some (.ok (.opened name (some e))))) rfl, h⟩
  | .listed name entries :: fans, fs, disk, h, s => by
    have hopened : Leads b3 st modified clock (fs, .sweeping s)
        (fs, .listing s (st.objects.push name)) :=
      .move (m := .fan (some (.ok (.opened name none)))) rfl
    obtain ⟨fs₁, hentries, h₁⟩ := leads_entries b3 st clock (st.objects.push name) entries h s
    rcases hr : sweepEntries s.live s.now s.minAge (st.objects.push name) entries ⟨disk, s.stats⟩
      with ⟨s₁, _ | e⟩ <;> simp only [sweepFans, hr] at hentries h₁ ⊢
    · obtain ⟨fs₂, hfans, h₂⟩ := leads_fans fans h₁ { s with stats := s₁.stats }
      exact ⟨fs₂, (hopened.trans hentries).trans hfans, h₂⟩
    · exact ⟨fs₁, hopened.trans hentries, h₁⟩

variable {b3 st} in
theorem foundRefs_eq (h : Shows modified fs disk) : st.foundRefs b3 fs none = st.refs b3 disk := by
  funext d
  simp only [foundRefs, found, refs, getTree, readFile, h (st.objectPath d)]
  rcases fs.file (st.objectPath d) with _ | i <;> rfl

theorem leads_marked (modified : ℕ → ℕ) (fs : Files) (minAge : ℕ) :
    ∀ (n : ℕ) (s : Marking.State Digest), Leads b3 st modified clock (fs, .marking minAge s)
      (fs, .marking minAge (Marking.markLoop (st.foundRefs b3 fs none) n s))
  | 0, _ => .refl _
  | _ + 1, ⟨_, []⟩ => .refl _
  | n + 1, ⟨_, _ :: _⟩ =>
    (Leads.move (m := .mark none) rfl).trans (leads_marked modified fs minAge n _)

/-- A collection with nobody beside it does what one that is made at once does, whatever the
listings say and the calls answer. -/
theorem gc_alone (h : Shows modified fs disk) (roots : List Digest) (minAge : ℕ)
    (listing : Except IoError (List Fan)) :
    let r := st.gc b3 disk clock roots minAge listing
    ∃ fs', Leads b3 st modified clock (fs, .marking minAge ⟨∅, roots.reverse⟩) (fs', .done r.2) ∧
      Shows modified fs' r.1 := by
  have hmarked : Leads b3 st modified clock (fs, .marking minAge ⟨∅, roots.reverse⟩)
      (fs, .marking minAge ⟨st.mark b3 disk roots, []⟩) := by
    have hdone : (Marking.markLoop (st.refs b3 disk)
        (Marking.turns (st.refs b3 disk) (named disk) roots) ⟨∅, roots.reverse⟩).queue = [] :=
      Marking.markLoop_turns (fun _ => st.mem_named_of_nodes b3) le_rfl
    have hmarked := leads_marked b3 st clock modified fs minAge
      (Marking.turns (st.refs b3 disk) (named disk) roots) ⟨∅, roots.reverse⟩
    rw [foundRefs_eq h] at hmarked
    unfold mark
    rcases hloop : Marking.markLoop (st.refs b3 disk)
      (Marking.turns (st.refs b3 disk) (named disk) roots) ⟨∅, roots.reverse⟩ with ⟨live, queue⟩
    rw [hloop] at hdone hmarked
    obtain rfl : queue = [] := hdone
    exact hmarked
  rcases listing with e | fans
  · exact ⟨fs, hmarked.trans (.move (m := .openObjects (some e)) rfl), h⟩
  · have hopened := hmarked.trans (.move (m := .openObjects none) rfl)
    obtain ⟨fs', hfans, h'⟩ := leads_fans b3 st clock fans h
      ⟨st.mark b3 disk roots, minAge, clock, ⟨(st.mark b3 disk roots).card, 0, 0, 0⟩⟩
    rcases hr : st.sweepFans (st.mark b3 disk roots) clock minAge fans
      ⟨disk, ⟨(st.mark b3 disk roots).card, 0, 0, 0⟩⟩ with ⟨s, _ | e⟩ <;>
      simp only [gc, hr] at hfans h' ⊢
    · exact ⟨fs', hopened.trans hfans, h'⟩
    · exact ⟨fs', hopened.trans hfans, h'⟩

section Sample

/-- A store with one object, which no root leads to. -/
def strayFile : Files :=
  ⟨fun _ => ⟨[120], objectMode⟩, 1,
    Function.update (fun _ => none) (sampleStore.objectPath sampleBlob) (some 0), fun _ => true⟩

def strayObject : Disk := AList.insert (sampleStore.objectPath sampleBlob) ⟨[120], 0⟩ ∅

theorem stray_shows : Shows (fun _ => 0) strayFile strayObject := fun p => by
  unfold strayObject strayFile
  by_cases hp : p = sampleStore.objectPath sampleBlob
  · rw [hp, AList.lookup_insert]
    simp
  · rw [AList.lookup_insert_ne hp]
    simp [Function.update_of_ne hp]

theorem one_collected :
    (sampleStore.gc sampleBlake3 strayObject 5 [] 0 (sampleListing sampleBlob)).2.toOption =
      some ⟨0, 1, 1, 0⟩ ∧
    ∃ fs', Leads sampleBlake3 sampleStore (fun _ => 0) 5 (strayFile, .marking 0 ⟨∅, [].reverse⟩)
        (fs', .done (sampleStore.gc sampleBlake3 strayObject 5 [] 0 (sampleListing sampleBlob)).2) ∧
      Shows (fun _ => 0) fs'
        (sampleStore.gc sampleBlake3 strayObject 5 [] 0 (sampleListing sampleBlob)).1 :=
  ⟨by decide +kernel, gc_alone sampleBlake3 sampleStore 5 stray_shows [] 0 _⟩

end Sample

end Collection

end Jetrun
