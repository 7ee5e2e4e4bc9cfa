import Jetrun.Lib.Building
import Jetrun.Proofs.FileTree
import Jetrun.Proofs.Gc
import Jetrun.Proofs.Storing

/-!
# Ingesting a directory

An ingest that succeeds has put the parts of one tree, the tree its directory was from the start, in
whatever order the listings came. If no call fails by itself, it fails only for a tree that has no
manifest, or for a manifest whose staging file cannot be written.
-/

namespace Jetrun

open Traced Volumes Volumes.Volume

namespace ObjectStore

variable {st : ObjectStore} {dir : Path}

theorem slot_apart {d d' : Digest} (hne : d' ≠ d) :
    ¬st.Slot d (st.stagingPath d') ∧ ¬st.Slot d (st.objectPath d') := by
  constructor
  · rintro (h | h | h)
    · exact hne (st.stagingPath_inj h)
    · exact st.stagingPath_ne d' d h
    · exact stagingPath_ne_fanoutPath d' d h
  · rintro (h | h | h)
    · exact st.stagingPath_ne d d' h.symm
    · exact hne (st.objectPath_inj h)
    · exact objectPath_ne_fanoutPath d' d h

/-- A directory that neither holds the store nor stands in it. -/
def Clear (st : ObjectStore) (dir : Path) : Prop := Building.Apart st.root dir

namespace Clear

theorem ne_nil (h : st.Clear dir) : dir ≠ [] := fun hnil => h.2 (hnil ▸ List.nil_prefix)

theorem outside (h : st.Clear dir) (rel : Path) : ¬st.Inside (dir ++ rel) := fun hin =>
  h.not_both hin (List.prefix_append dir rel)

theorem child (h : st.Clear dir) (n : String) : st.Clear (dir ++ [n]) :=
  ⟨h.outside [n], fun hp => h.2 ((List.prefix_append dir [n]).trans hp)⟩

end Clear

end ObjectStore

namespace Storing

open ObjectStore Machine

variable {b3 : Blake3} {st : ObjectStore} {S : Request → Prop} {m₀ : Machine}
  {h₀ h h' : List StoreEvent} {w w' : Link.Session Machine} {ok : StoreEvent → Prop}

section Walk

variable {d : Digest}

/-- What became of a digest since `m₀`. If something did, its object is there, and a put of it would
have gone through at first unless it is the content of a file. -/
def Accounted (b3 : Blake3) (st : ObjectStore) (S : Request → Prop) (m₀ : Machine) (d : Digest)
    (v : Volume String) : Prop :=
  Beside (fun q => q ≠ st.stagingPath d ∧ q ≠ st.objectPath d) m₀.volume v ∨
    v.find (st.objectPath d) ≠ none ∧
      (Ready st m₀ d ∨ ∃ content, S (.bytes content) ∧ d = blobDigest b3 content)

theorem Ready.congr {m m' : Machine} (hcont : Continues m m')
    (h : Beside (fun q => q ≠ st.stagingPath d ∧ q ≠ st.objectPath d) m.volume m'.volume) :
    Ready st m' d ↔ Ready st m d := by
  have hstaged : m'.volume.find (st.stagingPath d) = m.volume.find (st.stagingPath d) :=
    h.find fun hq => hq.1 rfl
  have hobject : m'.volume.find (st.objectPath d) = m.volume.find (st.objectPath d) :=
    h.find fun hq => hq.2 rfl
  unfold Ready Writable
  rw [hstaged, hobject, hcont.privileged]
  refine or_congr_right (or_congr_right (exists_congr fun i => and_congr_right fun hi => ?_))
  rw [h.inode (fun hq => hq.1 rfl) hi]

/-- An ingest on the way, so far without a failure. -/
structure Walk (b3 : Blake3) (st : ObjectStore) (S : Request → Prop) (m₀ : Machine)
    (h₀ : List StoreEvent) (w : Link.Session Machine) (h : List StoreEvent) : Prop where
  served : Served b3 st S st.Inside m₀ h₀ w h
  accounted : ∀ d, Accounted b3 st S m₀ d w.os.volume

namespace Walk

theorem start (hs : Sound st (Named b3 S) w.os.volume) : Walk b3 st S w.os h w h :=
  ⟨.start hs, fun _ => .inl (.refl _)⟩

theorem calls (hw : Walk b3 st S m₀ h₀ w h) :
    Walk b3 st S m₀ h₀ { w with os := w.os.after w.os.volume } h :=
  ⟨hw.served.calls, hw.accounted⟩

theorem ready (hw : Walk b3 st S m₀ h₀ w h) (hr : Ready st m₀ d) : Ready st w.os d := by
  rcases hw.accounted d with hbeside | ⟨hthere, -⟩
  · exact (Ready.congr hw.served.continues hbeside).2 hr
  · exact .inl hthere

theorem ready_before (hw : Walk b3 st S m₀ h₀ w h) (hr : Ready st w.os d) :
    Ready st m₀ d ∨ ∃ content, S (.bytes content) ∧ d = blobDigest b3 content := by
  rcases hw.accounted d with hbeside | ⟨-, hready⟩
  · exact .inl ((Ready.congr hw.served.continues hbeside).1 hr)
  · exact hready

/-- After a put that succeeded. -/
theorem put (hw : Walk b3 st S m₀ h₀ w h) (hs : Served b3 st S (st.Slot d) w.os h w' h')
    (hthere : w'.os.volume.find (st.objectPath d) ≠ none)
    (hready : Ready st m₀ d ∨ ∃ content, S (.bytes content) ∧ d = blobDigest b3 content) :
    Walk b3 st S m₀ h₀ w' h' where
  served := hw.served.trans (hs.mono fun _ => slot_inside)
  accounted d' := by
    by_cases hd : d' = d
    · subst hd
      exact .inr ⟨hthere, hready⟩
    · obtain ⟨hstaged, hobject⟩ : ¬st.Slot d _ ∧ ¬st.Slot d _ := slot_apart hd
      rcases hw.accounted d' with hbeside | ⟨hthere', hready'⟩
      · refine .inl (hbeside.trans (hs.beside.mono fun q hq => ⟨?_, ?_⟩))
        · rintro rfl
          exact hstaged hq
        · rintro rfl
          exact hobject hq
      · exact .inr ⟨hs.kept d' hthere', hready'⟩

theorem find_eq (hw : Walk b3 st S m₀ h₀ w h) {q : Path} (hq : ¬st.Inside q) :
    w.os.volume.find q = m₀.volume.find q := hw.served.beside.find hq

end Walk

end Walk

section Holds

/-- Since `v₁` the objects of these requests were added, and no others. -/
structure Holds (b3 : Blake3) (st : ObjectStore) (S : Request → Prop) (m₀ : Machine)
    (v₁ : Volume String) (P : Request → Prop) (v : Volume String) : Prop where
  kept : ∀ d, v₁.find (st.objectPath d) ≠ none → v.find (st.objectPath d) ≠ none
  stored : ∀ r, P r → S r ∧ v.find (st.objectPath (r.digest b3)) ≠ none
  only : ∀ d, v.find (st.objectPath d) ≠ none →
    v₁.find (st.objectPath d) ≠ none ∨ ∃ r, P r ∧ r.digest b3 = d
  ready : ∀ t, P (.tree t) → Ready st m₀ (t.digest b3) ∨
    ∃ content, S (.bytes content) ∧ t.digest b3 = blobDigest b3 content

namespace Holds

variable {v₁ v : Volume String} {P Q : Request → Prop}

theorem none (hP : ∀ r, ¬P r) : Holds b3 st S m₀ v P v where
  kept _ hd := hd
  stored r hr := absurd hr (hP r)
  only _ hd := .inl hd
  ready _ ht := absurd ht (hP _)

theorem union (hP : Holds b3 st S m₀ v₁ P w.os.volume)
    (hQ : Holds b3 st S m₀ w.os.volume Q w'.os.volume) :
    Holds b3 st S m₀ v₁ (fun r => P r ∨ Q r) w'.os.volume where
  kept d hd := hQ.kept d (hP.kept d hd)
  stored r hr := by
    rcases hr with hr | hr
    · exact ⟨(hP.stored r hr).1, hQ.kept _ (hP.stored r hr).2⟩
    · exact hQ.stored r hr
  only d hd := by
    rcases hQ.only d hd with hd | ⟨r, hr, hrd⟩
    · rcases hP.only d hd with hd | ⟨r, hr, hrd⟩
      · exact .inl hd
      · exact .inr ⟨r, .inl hr, hrd⟩
    · exact .inr ⟨r, .inr hr, hrd⟩
  ready t ht := ht.elim (hP.ready t) (hQ.ready t)

theorem congr (hP : Holds b3 st S m₀ v₁ P v) (hPQ : ∀ r, Q r ↔ P r) :
    Holds b3 st S m₀ v₁ Q v where
  kept := hP.kept
  stored r hr := hP.stored r ((hPQ r).1 hr)
  only d hd := (hP.only d hd).imp_right fun ⟨r, hr, hrd⟩ => ⟨r, (hPQ r).2 hr, hrd⟩
  ready t ht := hP.ready t ((hPQ _).1 ht)

/-- After one put. -/
theorem put {r : Request} (hs : Served b3 st S (st.Slot (r.digest b3)) w.os h w' h') (hr : S r)
    (hthere : w'.os.volume.find (st.objectPath (r.digest b3)) ≠ Option.none)
    (hready : ∀ t, r = .tree t → Ready st m₀ (t.digest b3) ∨
      ∃ content, S (.bytes content) ∧ t.digest b3 = blobDigest b3 content) :
    Holds b3 st S m₀ w.os.volume (· = r) w'.os.volume where
  kept := hs.kept
  stored r' hr' := hr' ▸ ⟨hr, hthere⟩
  only d hd := by
    by_cases hsame : d = r.digest b3
    · exact .inr ⟨r, rfl, hsame.symm⟩
    · rw [hs.beside.find (slot_apart hsame).2] at hd
      exact .inl hd
  ready t ht := hready t ht.symm

end Holds

end Holds

section Leads

/-- A tree that an ingest can get through: it has a manifest, and so have all of its directories,
and a put of each would go through. -/
def Ingestible (b3 : Blake3) (st : ObjectStore) (m : Machine) (levels : ℕ) (f : FileTree) : Prop :=
  ∃ t, Describes b3 levels f t ∧ ∀ t', Part b3 f (.tree t') → Ready st m (t'.digest b3)

/-- What a part of an ingest comes to: a result with `P`, for which the requests in `R` were put. -/
def WalkEnds {α : Type} (b3 : Blake3) (st : ObjectStore) (S : Request → Prop) (m₀ : Machine)
    (v₁ : Volume String) (h₀ : List StoreEvent) (P : α → Prop) (R : α → Request → Prop)
    (fine : Prop) (r : Except Stop α) (w : Link.Session Machine) (h : List StoreEvent) : Prop :=
  match r with
  | .ok a => Walk b3 st S m₀ h₀ w h ∧ P a ∧ Holds b3 st S m₀ v₁ (R a) w.os.volume
  | .error _ => Served b3 st S st.Inside m₀ h₀ w h ∧ (m₀.Calm → ¬fine)

theorem WalkEnds.served {α : Type} {v₁ : Volume String} {P : α → Prop} {R : α → Request → Prop}
    {fine : Prop} {r : Except Stop α} (h : WalkEnds b3 st S m₀ v₁ h₀ P R fine r w h') :
    Served b3 st S st.Inside m₀ h₀ w h' := by
  cases r with
  | error e => exact h.1
  | ok a => exact h.1.served

/-- The requests that were put for the entries of a tree. -/
def Below (b3 : Blake3) (f : FileTree) (t : Tree) (r : Request) : Prop :=
  ∃ e ∈ t.iter, Part b3 (f.sub e.1.text) r

section Ends

variable (b3 : Blake3) (st : ObjectStore) (S : Request → Prop) (m₀ : Machine) (v₁ : Volume String)
  (h₀ : List StoreEvent) (levels : ℕ) (f : FileTree)

/-- An ingest of a directory, but for its own manifest. -/
def TreeEnds : Except Stop Tree → Link.Session Machine → List StoreEvent → Prop :=
  WalkEnds b3 st S m₀ v₁ h₀ (Describes b3 levels f) (Below b3 f) (Ingestible b3 st m₀ levels f)

def NodeEnds : Except Stop Node → Link.Session Machine → List StoreEvent → Prop :=
  WalkEnds b3 st S m₀ v₁ h₀ (NodeFor b3 (Describes b3 levels) f) (fun _ => Part b3 f)
    (∃ node, NodeFor b3 (Describes b3 levels) f node ∧
      ∀ t', Part b3 f (.tree t') → Ready st m₀ (t'.digest b3))

end Ends

variable {levels : ℕ} {path dir : Path} {f : FileTree} {v₁ : Volume String}

/-- A manifest is put after all that stands below it. -/
theorem putTree_leads {t : Tree} (hf : f.Rooted) (hw : Walk b3 st S m₀ h₀ w h)
    (hok : ∀ r, ok (.put r) → S r) (ht : Describes b3 levels f t)
    (hholds : Holds b3 st S m₀ v₁ (Below b3 f t) w.os.volume) :
    Leads ok (putTree b3 st t) (WalkEnds b3 st S m₀ v₁ h₀ (· = t.digest b3)
      (fun _ => Part b3 f) (Ingestible b3 st m₀ levels f)) w h := by
  refine (putContent_leads hw.served.sound (hok _)).mono ?_
  rintro (e | d) w' h' ⟨hs, hres⟩
  · refine ⟨hw.served.trans (hs.mono fun _ => slot_inside), fun hcalm => ?_⟩
    rintro ⟨t', ht', hready⟩
    obtain rfl := ht.unique ht'
    have hpart : Part b3 f (.tree t) := (ht.part_iff hf).2 (.inl rfl)
    exact hres (hw.served.continues.calm.2 hcalm) (hw.ready (hready t hpart))
  · obtain ⟨rfl, hr, hthere, hready, -⟩ := hres
    have hbefore := hw.ready_before hready
    have hput : Holds b3 st S m₀ w.os.volume (· = .tree t) w'.os.volume :=
      Holds.put hs hr hthere fun t' ht' => by
        cases ht'
        exact hbefore
    refine ⟨hw.put hs hthere hbefore, rfl, (hholds.union hput).congr fun r => ?_⟩
    exact (ht.part_iff hf).trans or_comm

/-- The node of a file. -/
theorem fileNode_leads (hdir : st.Clear path) (hw : Walk b3 st S m₀ h₀ w h)
    (hok : ∀ r, ok (.put r) → S r) {i : ℕ} (hi : m₀.volume.find path = some (.file i)) :
    Leads ok (do
      let (d, size) ← putFile b3 st path
      pure (.file d (UInt64.ofNat size) ((m₀.volume.inode i).mode &&& 0o100 ≠ 0)))
      (NodeEnds b3 st S m₀ w.os.volume h₀ levels (view m₀.volume path)) w h := by
  have hpath : ¬st.Inside path := fun hin => hdir.1 hin
  have hi' : w.os.volume.find path = some (.file i) := (hw.find_eq hpath).trans hi
  have hinode : w.os.volume.inode i = m₀.volume.inode i := hw.served.beside.inode hpath hi
  refine leads_bind ((putFile_leads hw.served.sound hok hpath).mono ?_)
  rintro (e | ⟨d', size⟩) w' h' ⟨d, hs, hres⟩
  · refine ⟨hw.served.trans (hs.mono fun _ => slot_inside), fun hcalm => ?_⟩
    exact absurd hi' (hres (hw.served.continues.calm.2 hcalm) i)
  · obtain ⟨rfl, hthere, j, hj, hr, hd, rfl, -⟩ := hres
    obtain rfl : i = j := by simpa using hi'.symm.trans hj
    rw [hinode] at hr hd ⊢
    have hd' : d' = (Request.bytes (m₀.volume.inode i).content).digest b3 := hd
    have hseen : view m₀.volume path [] = some (.file (m₀.volume.inode i).content
        ((m₀.volume.inode i).mode &&& 0o100 ≠ 0)) := by
      rw [view, List.append_nil, hi]
      rfl
    subst hd'
    have hput : Holds b3 st S m₀ w.os.volume (· = .bytes (m₀.volume.inode i).content)
        w'.os.volume := Holds.put hs hr hthere fun _ h => by cases h
    refine leads_pure ⟨hw.put hs hthere (.inr ⟨_, hr, rfl⟩), ⟨_, hseen, rfl, rfl⟩,
      hput.congr fun r => ⟨fun hpart => ?_, ?_⟩⟩
    · obtain ⟨content, x, hfile, rfl⟩ :=
        part_leaf (view_rooted hdir.ne_nil) (by simp [hseen]) hpart
      rw [hseen] at hfile
      cases hfile
      rfl
    · rintro rfl
      exact ⟨[], .inl ⟨_, _, hseen, rfl⟩⟩

theorem symlinkNode_leads (hdir : st.Clear path) (hw : Walk b3 st S m₀ h₀ w h)
    {target : List UInt8} (hlink : m₀.volume.find path = some (.symlink target)) :
    Leads ok (do
      let target ← check "read_link" path (← call (Machine.readLink path))
      match Utf8.decode target with
      | some target => pure (Node.symlink target)
      | none => fail (.nonUtf8Name path))
      (NodeEnds b3 st S m₀ w.os.volume h₀ levels (view m₀.volume path)) w h := by
  have hlink' : w.os.volume.find path = some (.symlink target) :=
    (hw.find_eq fun hin => hdir.1 hin).trans hlink
  have hseen : view m₀.volume path [] = some (.symlink target) := by
    rw [view, List.append_nil, hlink]
    rfl
  refine leads_call_bind (acts_query (fun e hf => ?_) ?_)
  · refine leads_check_bind (fun _ h => by cases h) fun _ _ => ⟨hw.calls.served, fun hcalm => ?_⟩
    exact absurd (hw.served.continues.calm.2 hcalm) hf
  rw [hlink']
  refine leads_check_bind (fun target' htarget => ?_) fun _ h => by cases h
  obtain rfl : target = target' := by simpa using htarget
  rcases hdecode : Utf8.decode target with _ | text
  · refine leads_fail ⟨hw.calls.served, fun _ => ?_⟩
    rintro ⟨node, hnode, -⟩
    rcases node with ⟨d, size, x⟩ | d | text
    · obtain ⟨content, hcontent, -⟩ := hnode
      cases hseen.symm.trans hcontent
    · obtain ⟨t, ht, -⟩ := hnode
      cases hseen.symm.trans ht.root
    · have htext : target = Utf8.encode text := by
        have hnode' : view m₀.volume path [] = some (.symlink (Utf8.encode text)) := hnode
        simpa using hseen.symm.trans hnode'
      rw [htext, Utf8.decode_encode] at hdecode
      cases hdecode
  · refine leads_pure ⟨hw.calls, ?_, Holds.none fun r hpart => ?_⟩
    · show view m₀.volume path [] = some (.symlink (Utf8.encode text))
      rw [Utf8.encode_of_decode hdecode]
      exact hseen
    · obtain ⟨content, x, hfile, -⟩ :=
        part_leaf (view_rooted hdir.ne_nil) (by simp [hseen]) hpart
      rw [hseen] at hfile
      cases hfile

/-- What an ingest of directories is to do. -/
def Ingests (b3 : Blake3) (st : ObjectStore) (S : Request → Prop) (ok : StoreEvent → Prop)
    (m₀ : Machine) (h₀ : List StoreEvent) (levels : ℕ) (into : Path → Storing Tree) : Prop :=
  ∀ dir w h, st.Clear dir → Walk b3 st S m₀ h₀ w h → Leads ok (into dir)
    (TreeEnds b3 st S m₀ w.os.volume h₀ levels (view m₀.volume dir)) w h

theorem dirNode_leads {into : Path → Storing Tree} (hinto : Ingests b3 st S ok m₀ h₀ levels into)
    (hdir : st.Clear path) (hw : Walk b3 st S m₀ h₀ w h) (hok : ∀ r, ok (.put r) → S r)
    {odd : List String} (hfind : m₀.volume.find path = some (.dir odd)) :
    Leads ok (do
      let sub ← into path
      let d ← putTree b3 st sub
      pure (Node.dir d))
      (NodeEnds b3 st S m₀ w.os.volume h₀ levels (view m₀.volume path)) w h := by
  have hnot : ¬Ingestible b3 st m₀ levels (view m₀.volume path) → ¬∃ node,
      NodeFor b3 (Describes b3 levels) (view m₀.volume path) node ∧
        ∀ t', Part b3 (view m₀.volume path) (.tree t') → Ready st m₀ (t'.digest b3) := by
    have hseen : view m₀.volume path [] = some (.dir odd) := by
      rw [view, List.append_nil, hfind]
      rfl
    rintro hno ⟨node, hnode, hready⟩
    obtain ⟨t, ht⟩ := hnode.of_dir hseen
    exact hno ⟨t, ht, hready⟩
  refine leads_bind ((hinto path w h hdir hw).mono ?_)
  rintro (e | t) w' h' hend
  · exact ⟨hend.1, fun hcalm => hnot (hend.2 hcalm)⟩
  · obtain ⟨hw', ht, hholds⟩ := hend
    refine leads_bind ((putTree_leads (view_rooted hdir.ne_nil) hw' hok ht hholds).mono ?_)
    rintro (e | d) w'' h'' hend'
    · exact ⟨hend'.1, fun hcalm => hnot (hend'.2 hcalm)⟩
    · obtain ⟨hw'', rfl, hholds'⟩ := hend'
      exact leads_pure ⟨hw'', ⟨t, ht, rfl⟩, hholds'⟩

/-- The node for an entry, whatever it is. -/
theorem nodeOf_leads {into : Path → Storing Tree} (hinto : Ingests b3 st S ok m₀ h₀ levels into)
    (hdir : st.Clear path) (hw : Walk b3 st S m₀ h₀ w h) (hok : ∀ r, ok (.put r) → S r)
    {e : Entry String} (hfind : m₀.volume.find path = some e) :
    Leads ok (nodeOf b3 st into path (metadataOf m₀.volume e))
      (NodeEnds b3 st S m₀ w.os.volume h₀ levels (view m₀.volume path)) w h := by
  rcases e with i | odd | target | _
  · exact fileNode_leads hdir hw hok hfind
  · exact dirNode_leads hinto hdir hw hok hfind
  · exact symlinkNode_leads hdir hw hfind
  · refine leads_fail ⟨hw.served, fun _ => ?_⟩
    rintro ⟨node, hnode, -⟩
    have hseen : view m₀.volume path [] = some .special := by
      rw [view, List.append_nil, hfind]
      rfl
    rcases node with ⟨d, size, x⟩ | d | text
    · obtain ⟨content, hcontent, -⟩ := hnode
      cases hseen.symm.trans hcontent
    · obtain ⟨t, ht, -⟩ := hnode
      cases hseen.symm.trans ht.root
    · cases hseen.symm.trans (show view m₀.volume path [] = some (.symlink (Utf8.encode text)) from
        hnode)

end Leads

section Listing

variable {levels : ℕ} {dir : Path} {f : FileTree} {v₁ : Volume String}

/-- Part of a directory is read: what was read is in the tree, and the rest is still to come. -/
structure Reading (b3 : Blake3) (levels : ℕ) (f : FileTree) (rest : List Listed) (t : Tree) :
    Prop where
  nodes : ∀ e ∈ t.iter, NodeFor b3 (Describes b3 levels) (f.sub e.1.text) e.2
  all : ∀ n, f [n] ≠ none → (∃ e ∈ t.iter, e.1.text = n) ∨ .plain n ∈ rest
  odd : ∀ odd, f [] = some (.dir odd) → ∀ s ∈ odd, .odd s ∈ rest
  listed : ∀ n, .plain n ∈ rest → f [n] ≠ none
  oddly : ∀ s, .odd s ∈ rest → f [] ≠ some (.dir [])
  fresh : ∀ n, .plain n ∈ rest → ∀ e ∈ t.iter, e.1.text ≠ n
  once : rest.Pairwise fun a b => ∀ n, a = .plain n → b ≠ .plain n

namespace Reading

variable {rest : List Listed} {t : Tree}

theorem start {v : Volume String} {odd : List String} (hfind : v.find dir = some (.dir odd))
    {entries : List Listed} (hperm : entries.Perm (listing v dir)) :
    Reading b3 levels (view v dir) entries .new := by
  have hroot : view v dir [] = some (.dir odd) := by
    rw [view, List.append_nil, hfind]
    rfl
  have hmem : ∀ entry, entry ∈ entries ↔ (∃ s ∈ odd, .odd s = entry) ∨
      ∃ n ∈ v.children dir, .plain n = entry := by
    intro entry
    rw [hperm.mem_iff, listing, hfind, List.mem_append, List.mem_map, List.mem_map]
  have hplain : ∀ n, .plain n ∈ entries ↔ view v dir [n] ≠ none := by
    intro n
    rw [hmem, view, Ne, Option.map_eq_none_iff, ← Ne, ← mem_children]
    simp
  refine ⟨fun e he => (by cases he), fun n hn => .inr ((hplain n).2 hn), fun odd' hodd' s hs => ?_,
    fun n hn => (hplain n).1 hn, fun s hs hnil => ?_, fun n _ e he => (by cases he), ?_⟩
  · rw [hroot, Option.some.injEq, Seen.dir.injEq] at hodd'
    exact (hmem _).2 (.inl ⟨s, hodd' ▸ hs, rfl⟩)
  · rw [hroot, Option.some.injEq, Seen.dir.injEq] at hnil
    subst hnil
    simpa using (hmem _).1 hs
  · refine hperm.symm.pairwise ?_ fun {a b} hab n hb ha => hab n ha hb
    rw [listing, hfind]
    refine List.pairwise_append.2 ⟨?_, ?_, ?_⟩
    · refine List.pairwise_map.2 (List.pairwise_of_forall fun _ _ n h => by cases h)
    · refine List.pairwise_map.2 (children_nodup.imp fun hne n ha hb => ?_)
      cases ha
      cases hb
      exact hne rfl
    · intro a ha b _ n hn
      obtain ⟨s, -, rfl⟩ := List.mem_map.1 ha
      cases hn

theorem notMem_keys {n : EntryName} (h : Reading b3 levels f (.plain n.text :: rest) t) :
    n ∉ t.entries.keys := by
  intro hmem
  obtain ⟨e, he, rfl⟩ := List.mem_map.1 hmem
  exact h.fresh _ List.mem_cons_self e he rfl

theorem mem_iter_insert {n : EntryName} {node : Node} {e : EntryName × Node}
    (h : Reading b3 levels f (.plain n.text :: rest) t) :
    e ∈ (t.insert n node).iter ↔ e = (n, node) ∨ e ∈ t.iter :=
  SortedMap.mem_insert h.notMem_keys

theorem below_insert {n : EntryName} {node : Node} {r : Request}
    (h : Reading b3 levels f (.plain n.text :: rest) t) :
    Below b3 f (t.insert n node) r ↔ Below b3 f t r ∨ Part b3 (f.sub n.text) r := by
  unfold Below
  constructor
  · rintro ⟨e, he, hr⟩
    rcases h.mem_iter_insert.1 he with rfl | he
    · exact .inr hr
    · exact .inl ⟨e, he, hr⟩
  · rintro (⟨e, he, hr⟩ | hr)
    · exact ⟨e, h.mem_iter_insert.2 (.inr he), hr⟩
    · exact ⟨_, h.mem_iter_insert.2 (.inl rfl), hr⟩

theorem insert {n : EntryName} {node : Node}
    (h : Reading b3 levels f (.plain n.text :: rest) t)
    (hnode : NodeFor b3 (Describes b3 levels) (f.sub n.text) node) :
    Reading b3 levels f rest (t.insert n node) := by
  obtain ⟨honce, hrest⟩ := List.pairwise_cons.1 h.once
  refine ⟨fun e he => ?_, fun m hm => ?_, fun odd hodd s hs => ?_,
    fun m hm => h.listed m (List.mem_cons_of_mem _ hm),
    fun s hs => h.oddly s (List.mem_cons_of_mem _ hs), fun m hm e he => ?_, hrest⟩
  · rcases h.mem_iter_insert.1 he with rfl | he
    · exact hnode
    · exact h.nodes e he
  · rcases h.all m hm with ⟨e, he, rfl⟩ | hmem
    · exact .inl ⟨e, h.mem_iter_insert.2 (.inr he), rfl⟩
    · rcases List.mem_cons.1 hmem with heq | hmem
      · cases heq
        exact .inl ⟨_, h.mem_iter_insert.2 (.inl rfl), rfl⟩
      · exact .inr hmem
  · rcases List.mem_cons.1 (h.odd odd hodd s hs) with heq | hmem
    · cases heq
    · exact hmem
  · rcases h.mem_iter_insert.1 he with rfl | he
    · rintro rfl
      exact honce _ hm _ rfl rfl
    · exact h.fresh m (List.mem_cons_of_mem _ hm) e he

theorem done (h : Reading b3 levels f [] t) {odd : List String} (hroot : f [] = some (.dir odd)) :
    Describes b3 (levels + 1) f t := by
  have hodd : odd = [] := List.eq_nil_iff_forall_not_mem.2 fun s hs => by
    cases h.odd odd hroot s hs
  refine ⟨hodd ▸ hroot, fun n hn => ?_, h.nodes⟩
  rcases h.all n hn with he | hmem
  · exact he
  · cases hmem

end Reading

/-- What is known of an entry of a tree that an ingest can get through. -/
theorem Ingestible.entry (h : Ingestible b3 st m₀ (levels + 1) f) {n : String} (hn : f [n] ≠ none) :
    ∃ name node, EntryName.new n = .ok name ∧ NodeFor b3 (Describes b3 levels) (f.sub n) node ∧
      ∀ t', Part b3 (f.sub n) (.tree t') → Ready st m₀ (t'.digest b3) := by
  obtain ⟨t, ht, hready⟩ := h
  obtain ⟨e, he, rfl⟩ := ht.2.1 n hn
  exact ⟨e.1, e.2, EntryName.new_text e.1, ht.2.2 e he, fun t' ht' => hready t' ht'.of_sub⟩

/-- What reading some of a directory comes to. -/
def ReadEnds (b3 : Blake3) (st : ObjectStore) (S : Request → Prop) (m₀ : Machine)
    (v₁ : Volume String) (h₀ : List StoreEvent) (levels : ℕ) (f : FileTree) (rest : List Listed)
    (r : Except Stop Tree) (w : Link.Session Machine) (h : List StoreEvent) : Prop :=
  match r with
  | .ok t => Walk b3 st S m₀ h₀ w h ∧ Reading b3 levels f rest t ∧
    Holds b3 st S m₀ v₁ (Below b3 f t) w.os.volume
  | .error _ => Served b3 st S st.Inside m₀ h₀ w h ∧
    (m₀.Calm → ¬Ingestible b3 st m₀ (levels + 1) f)

theorem ingestEntry_leads {into : Path → Storing Tree} (hinto : Ingests b3 st S ok m₀ h₀ levels into)
    (hdir : st.Clear dir) (hok : ∀ r, ok (.put r) → S r) {entry : Listed} {rest : List Listed}
    {t : Tree} (hw : Walk b3 st S m₀ h₀ w h)
    (hread : Reading b3 levels (view m₀.volume dir) (entry :: rest) t)
    (hholds : Holds b3 st S m₀ v₁ (Below b3 (view m₀.volume dir) t) w.os.volume) :
    Leads ok (ingestEntry b3 st into dir t entry)
      (ReadEnds b3 st S m₀ v₁ h₀ levels (view m₀.volume dir) rest) w h := by
  have hcalm : ∀ {w : Link.Session Machine} {h : List StoreEvent} {P : Prop},
      Walk b3 st S m₀ h₀ w h → ¬w.os.Calm → m₀.Calm → P := fun hw hf hcalm =>
    absurd (hw.served.continues.calm.2 hcalm) hf
  refine leads_call_bind (acts_query (fun e hf => ?_) ?_)
  · exact leads_check_bind (fun _ h => by cases h) fun _ _ => ⟨hw.calls.served, hcalm hw hf⟩
  refine leads_check_bind (fun _ _ => ?_) fun _ h => by cases h
  rcases entry with n | s
  · have hn := hread.listed n List.mem_cons_self
    refine leads_ofExcept_bind (fun name hname => ?_) fun e he => ⟨hw.calls.served, ?_⟩
    · have hnew : EntryName.new n = .ok name := by
        rcases hnew : EntryName.new n with e | name'
        · rw [hnew] at hname
          cases hname
        · rw [hnew] at hname
          cases hname
          rfl
      obtain rfl := EntryName.text_of_new hnew
      obtain ⟨e, he⟩ : ∃ e, m₀.volume.find (dir ++ [name.text]) = some e :=
        Option.ne_none_iff_exists'.1 fun hnone => hn (by rw [view, hnone]; rfl)
      have hmeta : metadataOf w.os.volume e = metadataOf m₀.volume e := by
        rcases e with i | _ | _ | _
        · rw [metadataOf, metadataOf, hw.served.beside.inode (hdir.outside _) he]
        all_goals rfl
      refine leads_call_bind (acts_query (fun e hf => ?_) ?_)
      · exact leads_check_bind (fun _ h => by cases h) fun _ _ =>
          ⟨hw.calls.calls.served, hcalm hw hf⟩
      rw [hw.calls.find_eq (hdir.outside _), he]
      refine leads_check_bind (fun stat hstat => ?_) fun _ h => by cases h
      obtain rfl : metadataOf m₀.volume e = stat := hmeta.symm.trans (Except.ok.inj hstat)
      refine leads_bind ((nodeOf_leads hinto (hdir.child name.text) hw.calls.calls hok he).mono ?_)
      rintro (e' | node) w' h' hend
      · refine ⟨hend.1, fun hm hfine => hend.2 hm ?_⟩
        obtain ⟨_, node, -, hnode, hready⟩ := hfine.entry hn
        rw [view_sub] at hnode hready
        exact ⟨node, hnode, hready⟩
      · obtain ⟨hw', hnode, hholds'⟩ := hend
        rw [← view_sub] at hnode hholds'
        exact leads_pure ⟨hw', hread.insert hnode,
          (hholds.union (w := { w with os := _ }) hholds').congr fun r => hread.below_insert⟩
    · intro _ hfine
      obtain ⟨name, -, hname, -⟩ := hfine.entry hn
      rw [hname] at he
      cases he
  · refine leads_fail ⟨hw.calls.served, fun _ hfine => ?_⟩
    obtain ⟨t', ht', -⟩ := hfine
    exact hread.oddly s List.mem_cons_self ht'.root

theorem ingestEntries_leads {into : Path → Storing Tree}
    (hinto : Ingests b3 st S ok m₀ h₀ levels into) (hdir : st.Clear dir)
    (hok : ∀ r, ok (.put r) → S r) (entries : List Listed) {t : Tree}
    (hstart : ReadEnds b3 st S m₀ v₁ h₀ levels (view m₀.volume dir) entries (.ok t) w h) :
    Leads ok (entries.foldlM (ingestEntry b3 st into dir) t)
      (ReadEnds b3 st S m₀ v₁ h₀ levels (view m₀.volume dir) []) w h :=
  leads_foldlM (I := fun rest t =>
      ReadEnds b3 st S m₀ v₁ h₀ levels (view m₀.volume dir) rest (.ok t))
    (fun entry rest t _ _ hI => (ingestEntry_leads hinto hdir hok hI.1 hI.2.1 hI.2.2).mono
      fun r _ _ hend => by
        rcases r with e | t'
        · exact hend
        · exact hend)
    (fun _ _ _ hI => hI) entries t w h hstart

/-- The tree of a directory, whatever order its entries and those below come in. -/
theorem ingestDirInner_leads (hok : ∀ r, ok (.put r) → S r) :
    ∀ levels, Ingests b3 st S ok m₀ h₀ levels (ingestDirInner b3 st levels)
  | 0 => fun dir w h hdir hw => by
    refine leads_ofExcept ⟨hw.served, fun _ => ?_⟩
    rintro ⟨t, ht, -⟩
    exact ht
  | levels + 1 => fun dir w h hdir hw => by
    have hview : view w.os.volume dir = view m₀.volume dir :=
      view_beside hw.served.beside hdir.outside
    have hcalm : ∀ {w : Link.Session Machine} {h : List StoreEvent} {P : Prop},
        Walk b3 st S m₀ h₀ w h → ¬w.os.Calm → m₀.Calm → P := fun hw hf hcalm =>
      absurd (hw.served.continues.calm.2 hcalm) hf
    refine leads_call_bind (acts_query (fun e hf => ?_) ?_)
    · exact leads_check_bind (fun _ h => by cases h) fun _ _ => ⟨hw.calls.served, hcalm hw hf⟩
    by_cases hisdir : w.os.volume.isDir dir = true
    · rw [if_pos hisdir]
      refine leads_check_bind (fun entries hentries => ?_) fun _ h => by cases h
      obtain ⟨odd, hodd⟩ := (isDir_iff.1 hisdir).resolve_left hdir.ne_nil
      have hperm : entries.Perm (listing w.os.volume dir) := by
        rw [← Except.ok.inj hentries]
        exact Moment.order_perm _ _
      have hstart : Reading b3 levels (view m₀.volume dir) entries .new :=
        hview ▸ Reading.start hodd hperm
      refine leads_bind ((ingestEntries_leads (ingestDirInner_leads hok levels) hdir hok entries
        ⟨hw.calls, hstart, .none (by rintro r ⟨e, he, -⟩; cases he)⟩).mono ?_)
      rintro (e | t) w' h' hend
      · exact hend
      · obtain ⟨hw', hread, hholds⟩ := hend
        refine leads_call_bind (acts_query (fun e hf => ?_) ?_)
        · exact leads_check_bind (fun _ h => by cases h) fun _ _ => ⟨hw'.calls.served, hcalm hw' hf⟩
        refine leads_check_bind (fun _ _ => ?_) fun _ h => by cases h
        have hroot : view m₀.volume dir [] = some (.dir odd) := by
          rw [← hview, view, List.append_nil, hodd]
          rfl
        exact leads_pure ⟨hw'.calls, hread.done hroot, hholds⟩
    · rw [if_neg hisdir]
      refine leads_check_bind (fun _ h => by cases h) fun _ _ => ⟨hw.calls.served, fun _ => ?_⟩
      rintro ⟨t, ht, -⟩
      have hroot := ht.root
      rw [← hview, view, List.append_nil, Option.map_eq_some_iff] at hroot
      obtain ⟨e, he, hseen⟩ := hroot
      rcases e with i | odd | target | _
      · cases hseen
      · exact hisdir (isDir_of_find he)
      · cases hseen
      · cases hseen

end Listing

section Whole

variable {levels : ℕ} {dir : Path}

/-- `ingest_dir` of a directory apart from the store. -/
theorem ingestDir_leads (hs : Sound st (Named b3 S) w.os.volume) (hok : ∀ r, ok (.put r) → S r)
    (hdir : st.Clear dir) :
    Leads ok (ingestDir b3 st levels dir) (WalkEnds b3 st S w.os w.os.volume h
      (fun d => ∃ t, Describes b3 levels (view w.os.volume dir) t ∧ d = t.digest b3)
      (fun _ => Part b3 (view w.os.volume dir))
      (Ingestible b3 st w.os levels (view w.os.volume dir))) w h := by
  refine leads_bind ((ingestDirInner_leads hok levels dir w h hdir (.start hs)).mono ?_)
  rintro (e | t) w' h' hend
  · exact hend
  · obtain ⟨hw, ht, hholds⟩ := hend
    refine (putTree_leads (view_rooted hdir.ne_nil) hw hok ht hholds).mono ?_
    rintro (e | d) w'' h'' hend'
    · exact hend'
    · exact ⟨hend'.1, ⟨t, ht, hend'.2.1⟩, hend'.2.2⟩

/-- Every request that is put is one of these. -/
def PutsOnly (S : Request → Prop) (trace : List StoreEvent) : Prop :=
  ∀ r, .put r ∈ trace → S r

theorem Leads.ends {α : Type} {m : Storing α}
    {Q : Except Stop α → Link.Session Machine → List StoreEvent → Prop}
    (hm : Leads (fun e => ∀ r, e = .put r → S r) m Q w []) (hput : PutsOnly S (m w).trace) :
    Q (m w).result (m w).world (m w).trace :=
  hm fun _ he r hr => hput r (hr ▸ he)

theorem ingestDir_ends (hs : Sound st (Named b3 S) w.os.volume) (hdir : st.Clear dir)
    (hput : PutsOnly S (ingestDir b3 st levels dir w).trace) :
    WalkEnds b3 st S w.os w.os.volume []
      (fun d => ∃ t, Describes b3 levels (view w.os.volume dir) t ∧ d = t.digest b3)
      (fun _ => Part b3 (view w.os.volume dir))
      (Ingestible b3 st w.os levels (view w.os.volume dir))
      (ingestDir b3 st levels dir w).result (ingestDir b3 st levels dir w).world
      (ingestDir b3 st levels dir w).trace :=
  Leads.ends (ingestDir_leads hs (fun r hr => hr r rfl) hdir) hput

/-- An object holds what its name says, in whichever store of this content it is. -/
theorem Sound.readable_unique {v v' : Volume String} {d : Digest} (hs : Sound st (Named b3 S) v)
    (hs' : Sound st (Named b3 S) v') (hcoll : Collisionless b3 S)
    (h : v.find (st.objectPath d) ≠ none ↔ v'.find (st.objectPath d) ≠ none) :
    readable v (st.objectPath d) = readable v' (st.objectPath d) := by
  unfold readable
  rcases hv : v.find (st.objectPath d) with _ | e <;>
    rcases hv' : v'.find (st.objectPath d) with _ | e'
  · rw [fileAt, fileAt, hv, hv']
    rfl
  · exact absurd hv (h.2 (by simp [hv']))
  · exact absurd hv' (h.1 (by simp [hv]))
  · obtain ⟨i, rfl, ⟨r, hr, hd, hcontent⟩, -⟩ := hs.object d e hv
    obtain ⟨j, rfl, ⟨r', hr', hd', hcontent'⟩, -⟩ := hs'.object d e' hv'
    have hsame : r.content = r'.content :=
      Request.content_of_hashed (hcoll r r' hr hr' (hd.trans hd'.symm))
    rw [fileAt_eq_ok hv, fileAt_eq_ok hv']
    show Except.ok (v.inode i).content = Except.ok (v'.inode j).content
    rw [← hcontent, ← hcontent', hsame]

/-- A manifest has no digest of a file. -/
theorem ready_of_collisionless {m : Machine} {t : Tree} (hcoll : Collisionless b3 S)
    (ht : S (.tree t)) (h : Ready st m (t.digest b3) ∨
      ∃ content, S (.bytes content) ∧ t.digest b3 = blobDigest b3 content) :
    Ready st m (t.digest b3) := by
  rcases h with h | ⟨content, hcontent, hd⟩
  · exact h
  · have hhashed := congrArg Prod.fst (hcoll (.tree t) (.bytes content) ht hcontent hd)
    exact absurd hhashed (show Context.tree ≠ Context.blob by decide)

/-- Two ingests of one directory, which list it and all below it in orders of their own, come to the
same if nothing fails by itself: where one succeeds so does the other, with the same digest and the
same objects. -/
theorem ingest_order_independent {d : Digest} (hs : Sound st (Named b3 S) w.os.volume)
    (hdir : st.Clear dir) (hvolume : w'.os.volume = w.os.volume)
    (hprivileged : w'.os.privileged = w.os.privileged) (hcalm : w'.os.Calm)
    (hcoll : Collisionless b3 S)
    (hput : PutsOnly S (ingestDir b3 st levels dir w).trace)
    (hput' : PutsOnly S (ingestDir b3 st levels dir w').trace)
    (hok : (ingestDir b3 st levels dir w).result = .ok d) :
    (ingestDir b3 st levels dir w').result = .ok d ∧ ∀ d',
      readable (ingestDir b3 st levels dir w).world.os.volume (st.objectPath d')
        = readable (ingestDir b3 st levels dir w').world.os.volume (st.objectPath d') := by
  have hend := ingestDir_ends hs hdir hput
  have hend' := ingestDir_ends (hvolume ▸ hs) hdir hput'
  rw [hvolume] at hend'
  rw [hok] at hend
  obtain ⟨hwalk, ⟨t, ht, hd⟩, hholds⟩ := hend
  have hready : Ingestible b3 st w'.os levels (view w.os.volume dir) := by
    refine ⟨t, ht, fun t' ht' => ?_⟩
    have hr := ready_of_collisionless hcoll (hholds.stored _ ht').1 (hholds.ready t' ht')
    unfold Ready Writable at hr ⊢
    rwa [hvolume, hprivileged]
  rcases hres : (ingestDir b3 st levels dir w').result with e | d₂
  · rw [hres] at hend'
    exact absurd hready (hend'.2 hcalm)
  · rw [hres] at hend'
    obtain ⟨hwalk', ⟨t', ht', hd'⟩, hholds'⟩ := hend'
    obtain rfl := ht.unique ht'
    refine ⟨by rw [hd', hd], fun d' => hwalk.served.sound.readable_unique hwalk'.served.sound hcoll ?_⟩
    have hsame : ∀ {m m' : Machine} {v v' : Volume String},
        Holds b3 st S m w.os.volume (Part b3 (view w.os.volume dir)) v →
        Holds b3 st S m' w.os.volume (Part b3 (view w.os.volume dir)) v' →
        v.find (st.objectPath d') ≠ none → v'.find (st.objectPath d') ≠ none := by
      intro m m' v v' h h' hthere
      rcases h.only d' hthere with hbefore | ⟨r, hr, rfl⟩
      · exact h'.kept d' hbefore
      · exact (h'.stored r hr).2
    exact ⟨hsame hholds hholds', hsame hholds' hholds⟩

end Whole

section Sample

def emptyVolume : Volume String where
  entries := ∅
  inode _ := ⟨[], 0, 0⟩
  next := 0
  parent _ _ _ h := by simp at h
  allocated _ _ h := by simp at h

/-- A call does what it is asked, and a listing comes as it is or reversed. -/
def sampleMoment (reversed : Bool) : Moment where
  fault := none
  moved := none
  now := 0
  order l := if reversed then l.reverse else l
  order_perm l := by
    split_ifs
    · exact List.reverse_perm l
    · exact .refl l
  cut l := [l]
  cut_flatten _ := List.append_nil _

def sampleMachine (reversed : Bool) (v : Volume String) : Machine :=
  ⟨v, fun _ => sampleMoment reversed, 0, ⟨fun _ _ => none, fun _ _ => none⟩, false⟩

/-- A store that was just opened, and beside it a directory with a file, a symlink, and another
directory with a file. -/
def sampleSetup : StateM Machine Unit := do
  let _ ← createDirAll ["/", "cas", "objects"]
  let _ ← createDirAll ["/", "cas", "tmp"]
  let _ ← createDirAll ["/", "src", "sub"]
  if let .ok fd ← openWrite ["/", "src", "a"] then
    let _ ← writeAll fd [97]
  if let .ok fd ← openWrite ["/", "src", "sub", "b"] then
    let _ ← writeAll fd [98]
  let _ ← Machine.symlink "a" ["/", "src", "l"]

def sampleVolume : Volume String := (sampleSetup (sampleMachine false emptyVolume)).2.volume

def sampleSession (reversed : Bool) : Link.Session Machine :=
  ⟨sampleMachine reversed sampleVolume, .new⟩

def sampleIngest (reversed : Bool) : Outcome (Link.Session Machine) Stop StoreEvent Digest :=
  ingestDir sampleBlake3 sampleStore 2 ["/", "src"] (sampleSession reversed)

theorem sampleIngest_runs : (sampleIngest false).result.toOption.isSome ∧
    Unused sampleStore sampleVolume ∧
    ∀ x ∈ StoreEvent.names sampleBlake3 ((sampleIngest false).trace ++ (sampleIngest true).trace),
      ∀ y ∈ StoreEvent.names sampleBlake3 ((sampleIngest false).trace ++ (sampleIngest true).trace),
        x.1 = y.1 → x.2 = y.2 := by
  decide +kernel

theorem sampleStore_clear : sampleStore.Clear ["/", "src"] := by
  unfold Clear Building.Apart
  decide

/-- A directory that is listed forwards and backwards. -/
theorem ingest_both_orders : ∃ d, (sampleIngest false).result = .ok d ∧
    (sampleIngest true).result = .ok d ∧
      ∀ d', readable (sampleIngest false).world.os.volume (sampleStore.objectPath d')
        = readable (sampleIngest true).world.os.volume (sampleStore.objectPath d') := by
  -- whatever the two sessions are: the samples are not evaluated in what follows
  have hboth : ∀ (b3 : Blake3) (st : ObjectStore) (w w' : Link.Session Machine) (dir : Path),
      Unused st w.os.volume → st.Clear dir → w'.os.volume = w.os.volume →
      w'.os.privileged = w.os.privileged → w'.os.Calm →
      Collisionless b3 (fun r => .put r ∈ (ingestDir b3 st 2 dir w).trace ++
        (ingestDir b3 st 2 dir w').trace) →
      (ingestDir b3 st 2 dir w).result.toOption.isSome →
      ∃ d, (ingestDir b3 st 2 dir w).result = .ok d ∧ (ingestDir b3 st 2 dir w').result = .ok d ∧
        ∀ d', readable (ingestDir b3 st 2 dir w).world.os.volume (st.objectPath d')
          = readable (ingestDir b3 st 2 dir w').world.os.volume (st.objectPath d') := by
    intro b3 st w w' dir hunused hclear hvolume hprivileged hcalm hcoll hsome
    rcases hres : (ingestDir b3 st 2 dir w).result with e | d
    · rw [hres] at hsome
      cases hsome
    · exact ⟨d, rfl, ingest_order_independent hunused.sound hclear hvolume hprivileged hcalm hcoll
        (fun _ hr => List.mem_append_left _ hr) (fun _ hr => List.mem_append_right _ hr) hres⟩
  obtain ⟨hsome, hunused, hnames⟩ := sampleIngest_runs
  have hcoll := collisionless_of_names hnames
  unfold sampleIngest at hsome hcoll ⊢
  exact hboth _ _ _ _ _ hunused sampleStore_clear rfl rfl (fun _ => rfl) hcoll hsome

end Sample

end Storing

end Jetrun
