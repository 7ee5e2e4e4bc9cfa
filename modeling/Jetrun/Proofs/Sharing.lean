import Jetrun.Proofs.Ledger
import Jetrun.Sharing

/-!
# No object is one inode with anything that is written to

A file outside of the store shares its inode with an object only if it was linked to it, which is
done where it may: not executable, and under `OverlayLower`. So whatever users write to else, the
objects stay as they are.

A file that was linked and is then given to the store is a file that the store was given
(`handed_back_changes`).
-/

namespace Jetrun

open Traced Volumes Volumes.Volume

namespace Workspaces

open ObjectStore Machine Storing

variable {b3 : Blake3} {st : ObjectStore} {s s' : Workspaces}

/-- What is put from and written to is outside of the store, and users leave files alone that were
linked to their objects. -/
def Apart (st : ObjectStore) (s : Workspaces) : Deed → Prop
  | .putFile path => ¬st.Inside path
  | .ingestDir _ dir => st.Clear dir
  | .materializeTree _ _ dest => ¬st.Inside dest
  | .write path .. => ¬st.Inside path ∧ ¬Lower s.placed path
  | .chmod path _ => ¬st.Inside path ∧ ¬Lower s.placed path

/-- The store holds what its ledger says, and shares an inode only where it may. -/
structure Unaliased (b3 : Blake3) (st : ObjectStore) (s : Workspaces) : Prop where
  kept : Ledger.Kept b3 st s.ledger
  shares : ∀ q, ¬st.Inside q → st.Shares s.volume q → Lower s.placed q

section Edit

variable {v : Volume String} {path : Path} {f : Inode → Inode} {N : Digest → List UInt8 → Prop}

theorem find_edit (p : Path) : (Deed.edit v path f).find p = v.find p := by
  unfold Deed.edit
  split
  · rfl
  · rfl

/-- Who edits a file that is no object leaves the objects alone. -/
theorem inode_edit (hshares : ¬st.Shares v path) {d : Digest} {i : ℕ}
    (hi : v.find (st.objectPath d) = some (.file i)) :
    (Deed.edit v path f).inode i = v.inode i := by
  unfold Deed.edit
  split
  · next j hj =>
    have hne : i ≠ j := fun hij => hshares ⟨d, i, hij ▸ hj, hi⟩
    rw [inode_setInode, if_neg hne]
  · rfl

theorem Sound.edit (h : Sound st N v) (hshares : ¬st.Shares v path) :
    Sound st N (Deed.edit v path f) := by
  have hdir : ∀ p, (Deed.edit v path f).isDir p = v.isDir p := fun p => isDir_congr (find_edit p)
  refine ⟨(hdir _).trans h.tmp_dir, (hdir _).trans h.objects_dir, fun d e he => ?_,
    fun d e he => ?_, fun d e he => ?_, fun d i hi q hq => ?_⟩
  · rw [find_edit] at he
    exact h.fanout d e he
  · rw [find_edit] at he
    obtain ⟨i, rfl, hi⟩ := h.object d e he
    rw [← inode_edit hshares he] at hi
    exact ⟨i, rfl, hi⟩
  · rw [find_edit] at he
    exact h.staged d e he
  · rw [find_edit] at hi hq
    exact h.staged_own d i hi q hq

end Edit

section Step

/-- What a run keeps: the store, and every object that is there. -/
structure Keeps (b3 : Blake3) (st : ObjectStore) (s s' : Workspaces) : Prop where
  unaliased : Unaliased b3 st s'
  asked : ∀ r ∈ s.ledger.asked, r ∈ s'.ledger.asked
  there : ∀ d, s.volume.find (st.objectPath d) ≠ none → s'.volume.find (st.objectPath d) ≠ none

theorem Keeps.trans {s'' : Workspaces} (h : Keeps b3 st s s') (h' : Keeps b3 st s' s'') :
    Keeps b3 st s s'' :=
  ⟨h'.unaliased, fun r hr => h'.asked r (h.asked r hr), fun d hd => h'.there d (h.there d hd)⟩

theorem Lower.append {h h' : List FsEvent} {q : Path} (hq : Lower h q) : Lower (h ++ h') q := by
  obtain ⟨src, he⟩ := hq
  exact ⟨src, List.mem_append_left _ he⟩

/-- An operation of the store, of which it is known what came to share an inode. -/
theorem Unaliased.operate (h : Unaliased b3 st s) {deed : Deed} {op : Op}
    (hop : deed.op s.volume = op) (hapart : Ledger.Apart st s.ledger op)
    (hgc : ∀ turns roots minAge, op ≠ .gc turns roots minAge)
    (hshares : ∀ q, ¬st.Inside q → st.Shares (s.after b3 st deed).volume q →
      st.Shares s.volume q ∨ Lower (s.events b3 st deed) q) :
    Keeps b3 st s (s.after b3 st deed) := by
  subst hop
  have hsteps := h.kept.after hapart
  refine ⟨⟨hsteps.kept, fun q hq hq' => ?_⟩, hsteps.asked, fun d hd => ?_⟩
  · rcases hshares q hq hq' with hold | ⟨src, he⟩
    · exact Lower.append (h.shares q hq hold)
    · exact ⟨src, List.mem_append_right _ he⟩
  · refine (hsteps.there d hd).resolve_right ?_
    rintro ⟨turns, roots, minAge, heq⟩
    exact hgc turns roots minAge heq

/-- What a user does to a file that shares no inode with an object. -/
theorem Unaliased.edit (h : Unaliased b3 st s) {deed : Deed} {path : Path} {f : Inode → Inode}
    (hop : deed.op s.volume = .others (Deed.edit s.volume path f))
    (hpath : ¬st.Inside path ∧ ¬Lower s.placed path) : Keeps b3 st s (s.after b3 st deed) := by
  have hshares : ¬st.Shares s.volume path := fun hq => hpath.2 (h.shares path hpath.1 hq)
  have hledger : (s.after b3 st deed).ledger
      = s.ledger.after b3 st (.others (Deed.edit s.volume path f)) := by
    show s.ledger.after b3 st (deed.op s.volume) = _
    rw [hop]
  have hvolume : (s.after b3 st deed).volume = Deed.edit s.volume path f := by
    unfold volume
    rw [hledger]
    rfl
  refine ⟨⟨⟨?_, fun r hr => ?_⟩, fun q hq hq' => ?_⟩, fun r hr => ?_, fun d hd => ?_⟩
  · rw [hledger]
    exact Sound.edit h.kept.sound hshares
  · rw [hledger] at hr ⊢
    obtain ⟨hasked, hthere⟩ := h.kept.answered r hr
    exact ⟨hasked, (find_edit _).trans_ne hthere⟩
  · rw [hvolume] at hq'
    exact Lower.append (h.shares q hq (hq'.congr (find_edit q) fun d => find_edit _))
  · rw [hledger]
    exact hr
  · rw [hvolume, find_edit]
    exact hd

theorem Unaliased.after (h : Unaliased b3 st s) {deed : Deed} (hapart : Apart st s deed) :
    Keeps b3 st s (s.after b3 st deed) := by
  have hsound : ∀ l, Sound st (Named b3 (· ∈ s.ledger.asked ++ l)) s.volume := fun l =>
    h.kept.sound.mono (Ledger.named_append l)
  cases deed with
  | putFile path =>
    refine h.operate rfl hapart (fun _ _ _ h => by cases h) fun q hq hq' => .inl ?_
    obtain ⟨d, hserved, -⟩ := Leads.ends (putFile_leads (hsound _) (fun r hr => hr r rfl) hapart)
      (Ledger.putsOnly_enter s.ledger (Storing.putFile b3 st path s.ledger.session))
    exact hserved.shares q (fun hslot => hq (slot_inside hslot)) hq'
  | ingestDir stack dir =>
    refine h.operate rfl hapart (fun _ _ _ h => by cases h) fun q hq hq' => .inl ?_
    have hend := ingestDir_ends (hsound _) hapart
      (Ledger.putsOnly_enter s.ledger (Storing.ingestDir b3 st stack dir s.ledger.session))
    have hvolume : (s.after b3 st (.ingestDir stack dir)).volume
        = (Storing.ingestDir b3 st stack dir s.ledger.session).world.os.volume :=
      congrArg (fun w => w.os.volume) (Ledger.session_ingestDir s.ledger stack dir)
    exact hend.served.shares q hq (hvolume ▸ hq')
  | materializeTree intent d dest =>
    refine h.operate rfl hapart (fun _ _ _ h => by cases h) fun q hq hq' => ?_
    have hleads : Leads (fun _ => True) (ObjectStore.materializeTree Machine.os b3 st intent d dest)
        (Materialized b3 st _ d dest ⟨s.ledger.session, .zero⟩ []) ⟨s.ledger.session, .zero⟩ [] :=
      materializeTree_leads h.kept.sound hapart
    exact hleads.outcome.1.shares q hq hq'
  | write path content now => exact h.edit rfl hapart
  | chmod path mode => exact h.edit rfl hapart

end Step

section Run

theorem Unaliased.visits (h : Unaliased b3 st s) {deeds : List Deed}
    (hapart : Runs.AllSteps (step b3 st) (Apart st) s deeds)
    (hvisits : Runs.Visits (step b3 st) s deeds s') : Keeps b3 st s s' :=
  Runs.visited_keeps (fun _ _ _ hk hdeed hs =>
    Option.some.inj hs ▸ hk.trans (hk.unaliased.after hdeed)) ⟨h, fun _ hr => hr, fun _ hd => hd⟩
    hapart hvisits

/-- Whatever the store is asked to do, whatever fails in it, and whatever users do in between to
files that were not linked to an object: an object keeps its content, and its mode is that of a
sealed file. -/
theorem objects_unaliased {s₀ : Workspaces} (hkept : Ledger.Kept b3 st s₀.ledger)
    (hnone : ∀ q, ¬st.Inside q → ¬st.Shares s₀.volume q) {before after : List Deed}
    (hapart : Runs.AllSteps (step b3 st) (Apart st) s₀ (before ++ after))
    (hs : Runs.exec (step b3 st) s₀ before = some s)
    (hs' : Runs.exec (step b3 st) s after = some s')
    (hcoll : Collisionless b3 (· ∈ s'.ledger.asked)) {d : Digest} {content : List UInt8} {mode : ℕ}
    (hobject : s.Object st d content mode) :
    mode = objectMode ∧ s'.Object st d content objectMode := by
  have hstart : Unaliased b3 st s₀ := ⟨hkept, fun q hq hq' => absurd hq' (hnone q hq)⟩
  have hmid := hstart.visits hapart ⟨before, after, rfl, hs⟩
  have hkeeps : Keeps b3 st s s' :=
    hmid.unaliased.visits (hapart.append_right hs) ⟨after, [], (List.append_nil _).symm, hs'⟩
  obtain ⟨i, hi, rfl, rfl⟩ := hobject
  obtain ⟨e, he⟩ := Option.ne_none_iff_exists'.1 (hkeeps.there d (by simp [hi]))
  obtain ⟨j, rfl, ⟨r', hr', hd', hcontent'⟩, hmode'⟩ := hkeeps.unaliased.kept.sound.object d e he
  obtain ⟨i', hi', ⟨r, hr, hd, hcontent⟩, hmode⟩ := hmid.unaliased.kept.sound.object d _ hi
  obtain rfl : i = i' := by simpa using hi'
  have hsame : r'.content = r.content :=
    Request.content_of_hashed (hcoll r' r hr' (hkeeps.asked r hr) (hd'.trans hd.symm))
  exact ⟨hmode, j, he, hcontent'.symm.trans (hsame.trans hcontent), hmode'⟩

end Run

section Sample

instance (st : ObjectStore) (q : Path) : Decidable (st.Inside q) :=
  inferInstanceAs (Decidable (_ <+: _))

instance (st : ObjectStore) (q : Path) : Decidable (st.Clear q) :=
  inferInstanceAs (Decidable (¬_ ∧ ¬_))

def linksAt (q : Path) : FsEvent → Bool
  | .materialize _ dst .overlayLower (.ok .hardlink) => dst = q
  | _ => false

theorem linksAt_iff {q : Path} {e : FsEvent} :
    linksAt q e = true ↔ ∃ src, e = .materialize src q .overlayLower (.ok .hardlink) := by
  unfold linksAt
  split
  · simp
  · next hne =>
    refine ⟨fun h => absurd h (by decide), ?_⟩
    rintro ⟨src, rfl⟩
    exact absurd rfl (hne src q)

theorem any_linksAt {h : List FsEvent} {q : Path} : h.any (linksAt q) = true ↔ Lower h q := by
  rw [List.any_eq_true]
  constructor
  · rintro ⟨e, he, hlinks⟩
    obtain ⟨src, rfl⟩ := linksAt_iff.1 hlinks
    exact ⟨src, he⟩
  · rintro ⟨src, he⟩
    exact ⟨_, he, linksAt_iff.2 ⟨src, rfl⟩⟩

instance (h : List FsEvent) (q : Path) : Decidable (Lower h q) := decidable_of_iff _ any_linksAt

instance (st : ObjectStore) (s : Workspaces) : ∀ deed, Decidable (Apart st s deed)
  | .putFile path => inferInstanceAs (Decidable (¬st.Inside path))
  | .ingestDir _ dir => inferInstanceAs (Decidable (st.Clear dir))
  | .materializeTree _ _ dest => inferInstanceAs (Decidable (¬st.Inside dest))
  | .write .. => inferInstanceAs (Decidable (_ ∧ _))
  | .chmod .. => inferInstanceAs (Decidable (_ ∧ _))

/-- A store that was just opened, and beside it a directory with a file. -/
def linkingSetup : StateM Machine Unit := do
  let _ ← createDirAll ["/", "cas", "objects"]
  let _ ← createDirAll ["/", "cas", "tmp"]
  let _ ← createDirAll ["/", "src"]
  if let .ok fd ← openWrite ["/", "src", "a"] then
    let _ ← writeAll fd [97]

/-- A machine where files are not cloned but linked. -/
def linkingSession : Link.Session Machine :=
  ⟨{ sampleMachine false (linkingSetup (sampleMachine false emptyVolume)).2.volume with
      support := ⟨fun _ _ => some ⟨Link.eopnotsupp, by decide⟩, fun _ _ => none⟩ }, .new⟩

def linkedRoot : Digest :=
  (ingestDir sampleBlake3 sampleStore 1 ["/", "src"] linkingSession).result.toOption.getD
    (sampleDigest [] 0)

/-- The directory is written out, and a file of it is put again. -/
def handedBack (intent : Intent) : List Deed :=
  [.ingestDir 1 ["/", "src"], .materializeTree intent linkedRoot ["/", "out"],
    .putFile ["/", "out", "a"]]

def objectOfA : Path := sampleStore.objectPath (blobDigest sampleBlake3 [97])

/-- A file is put, and then the object itself. -/
def putTwice : List Deed := [.putFile ["/", "src", "a"], .putFile objectOfA]

def rewriting (path : Path) : Deed := .write path [120] 0

def sampleRun (deeds : List Deed) : Workspaces :=
  deeds.foldl (after sampleBlake3 sampleStore) (new linkingSession)

/-- After the deeds there is an object, which does not survive that the user writes to the file. -/
def Spoils (deeds : List Deed) (path : Path) : Prop :=
  ∃ s s', Runs.exec (step sampleBlake3 sampleStore) (new linkingSession) deeds = some s ∧
    Runs.exec (step sampleBlake3 sampleStore) s [rewriting path] = some s' ∧
    s.Object sampleStore (blobDigest sampleBlake3 [97]) [97] objectMode ∧
    ¬s'.Object sampleStore (blobDigest sampleBlake3 [97]) [97] objectMode

theorem exec_foldl : ∀ (deeds : List Deed) (s : Workspaces),
    Runs.exec (step b3 st) s deeds = some (deeds.foldl (after b3 st) s)
  | [], _ => rfl
  | deed :: deeds, s => (Runs.exec_cons rfl).trans (exec_foldl deeds (s.after b3 st deed))

theorem linked_runs : Unused sampleStore linkingSession.os.volume ∧
    ((sampleRun (handedBack .overlayLower)).Object sampleStore (blobDigest sampleBlake3 [97]) [97]
        objectMode ∧
      ¬((sampleRun (handedBack .overlayLower)).after sampleBlake3 sampleStore
        (rewriting ["/", "out", "a"])).Object sampleStore (blobDigest sampleBlake3 [97]) [97]
        objectMode) ∧
    (sampleRun putTwice).Object sampleStore (blobDigest sampleBlake3 [97]) [97] objectMode ∧
      ¬((sampleRun putTwice).after sampleBlake3 sampleStore (rewriting objectOfA)).Object
        sampleStore (blobDigest sampleBlake3 [97]) [97] objectMode := by
  decide +kernel

/-- A user may change a file that the store was given. -/
theorem allSteps_given {path : Path} {deed : Deed} (hedits : deed.edits = some path) :
    ∀ (deeds : List Deed) (s : Workspaces), (∀ e ∈ deeds, e.edits = none) →
      (∃ earlier ∈ s.done ++ deeds, earlier.Gives path) →
      Runs.AllSteps (step b3 st) Polite s (deeds ++ [deed])
  | [], s, _, hgiven => by
    refine ⟨fun p hp => ?_, fun _ _ => trivial⟩
    obtain rfl : path = p := by simpa [hedits] using hp
    rw [List.append_nil] at hgiven
    exact .inl hgiven
  | e :: deeds, s, hnone, hgiven => by
    refine ⟨fun p hp => ?_, fun s' hs => ?_⟩
    · simp [hnone e List.mem_cons_self] at hp
    · obtain rfl : s.after b3 st e = s' := Option.some.inj hs
      refine allSteps_given hedits deeds _ (fun e' he' => hnone e' (List.mem_cons_of_mem _ he')) ?_
      rw [after, List.append_assoc]
      exact hgiven

/-- A file that was linked to its object and is put again, or an object that is put, is a file that
the store was given. Whoever writes to it writes to the object. -/
theorem handed_back_changes : Unused sampleStore linkingSession.os.volume ∧
    (Runs.AllSteps (step sampleBlake3 sampleStore) Polite (new linkingSession)
        (handedBack .overlayLower ++ [rewriting ["/", "out", "a"]]) ∧
      Spoils (handedBack .overlayLower) ["/", "out", "a"]) ∧
    Runs.AllSteps (step sampleBlake3 sampleStore) Polite (new linkingSession)
        (putTwice ++ [rewriting objectOfA]) ∧
      Spoils putTwice objectOfA := by
  obtain ⟨hunused, ⟨hlinked, hlinked'⟩, hput, hput'⟩ := linked_runs
  refine ⟨hunused, ⟨allSteps_given rfl _ _ ?_ ?_, ?_⟩, allSteps_given rfl _ _ ?_ ?_, ?_⟩
  · simp [handedBack, Deed.edits]
  · exact ⟨.putFile ["/", "out", "a"], by simp [handedBack], rfl⟩
  · exact ⟨_, _, exec_foldl _ _, exec_foldl _ _, hlinked, hlinked'⟩
  · simp [putTwice, Deed.edits]
  · exact ⟨.putFile objectOfA, by simp [putTwice], rfl⟩
  · exact ⟨_, _, exec_foldl _ _, exec_foldl _ _, hput, hput'⟩

theorem private_runs :
    Runs.AllSteps (step sampleBlake3 sampleStore) (Apart sampleStore) (new linkingSession)
      (handedBack .privateInode ++ [rewriting ["/", "out", "a"]]) ∧
    (sampleRun (handedBack .privateInode)).Object sampleStore (blobDigest sampleBlake3 [97]) [97]
      objectMode ∧
    ∀ r ∈ ((sampleRun (handedBack .privateInode)).after sampleBlake3 sampleStore
        (rewriting ["/", "out", "a"])).ledger.asked,
      ∀ r' ∈ ((sampleRun (handedBack .privateInode)).after sampleBlake3 sampleStore
          (rewriting ["/", "out", "a"])).ledger.asked,
        r.digest sampleBlake3 = r'.digest sampleBlake3 → r.hashed = r'.hashed := by
  decide +kernel

/-- A file that has an inode of its own can be put again and written to. -/
theorem private_handed_back : ∃ s s', Runs.exec (step sampleBlake3 sampleStore) (new linkingSession)
      (handedBack .privateInode) = some s ∧
    Runs.exec (step sampleBlake3 sampleStore) s [rewriting ["/", "out", "a"]] = some s' ∧
    s'.Object sampleStore (blobDigest sampleBlake3 [97]) [97] objectMode := by
  obtain ⟨hapart, hobject, hasked⟩ := private_runs
  have hunused := linked_runs.1
  have hempty : Sound sampleStore (fun _ _ => False) linkingSession.os.volume := hunused.sound
  have hnone : ∀ q, ¬sampleStore.Inside q → ¬sampleStore.Shares linkingSession.os.volume q := by
    rintro q - ⟨d, i, -, hd⟩
    obtain ⟨_, -, hfalse, -⟩ := hempty.object d _ hd
    exact hfalse
  exact ⟨_, _, exec_foldl _ _, exec_foldl _ _,
    (objects_unaliased ⟨hunused.sound, fun _ hr => by cases hr⟩ hnone hapart (exec_foldl _ _)
      (exec_foldl _ _) (fun r r' hr hr' => hasked r hr r' hr') hobject).2⟩

end Sample

end Workspaces

end Jetrun
