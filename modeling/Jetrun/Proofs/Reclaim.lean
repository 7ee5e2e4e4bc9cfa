import Jetrun.Proofs.Depth
import Jetrun.Proofs.Ledger
import Jetrun.Proofs.Sweep
import Jetrun.Proofs.Unfold

/-!
# What an ingest has returned survives a collection

Every manifest below a digest that an ingest has returned was put by that ingest, and so was the
content of every file in it. As a manifest and the content of a file never have the same digest, the
mark loop opens all of the manifests, and a root expands to the same after the sweep.

The loop takes whatever cannot be read for a leaf. Where a read fails by itself, what only that
manifest refers to is collected (`unread_root_lost`).
-/

namespace Jetrun

open Traced Volumes Volumes.Volume

namespace Storing

open ObjectStore Machine

variable {b3 : Blake3} {st : ObjectStore} {S : Request → Prop} {v v' : Volume String} {d : Digest}

section Whole

/-- The manifest of a directory tree, all of which was put. -/
structure PutWhole (b3 : Blake3) (S : Request → Prop) (levels : ℕ) (f : FileTree) (t : Tree) :
    Prop where
  describes : Describes b3 levels f t
  rooted : f.Rooted
  links : f.Linkable
  parts : ∀ r, Part b3 f r → S r

/-- The digest of such a manifest. -/
def Ingested (b3 : Blake3) (S : Request → Prop) (d : Digest) : Prop :=
  ∃ levels f t, PutWhole b3 S levels f t ∧ d = t.digest b3

variable {levels : ℕ} {f : FileTree} {t : Tree}

theorem PutWhole.asked (h : PutWhole b3 S levels f t) : S (.tree t) :=
  h.parts _ ((h.describes.part_iff h.rooted).2 (.inl rfl))

theorem PutWhole.node (h : PutWhole b3 S levels f t) {e : EntryName × Node} (he : e ∈ t.iter) :
    (∀ size x, e.2 = .file d size x → ∃ content, S (.bytes content) ∧ d = blobDigest b3 content) ∧
      (e.2 = .dir d → Ingested b3 S d) := by
  rcases levels with _ | levels
  · exact h.describes.elim
  have hnode := h.describes.2.2 e he
  refine ⟨fun size x hfile => ?_, fun hdir => ?_⟩
  · rw [hfile] at hnode
    obtain ⟨content, hcontent, hd, -⟩ := hnode
    exact ⟨content, h.parts _ ⟨[e.1.text], .inl ⟨content, x, hcontent, rfl⟩⟩, hd⟩
  · rw [hdir] at hnode
    obtain ⟨t', ht', hd⟩ := hnode
    exact ⟨levels, f.sub e.1.text, t', ⟨ht', h.rooted.sub _, h.links.sub _, fun r hr =>
      h.parts r hr.of_sub⟩, hd⟩

theorem Ingested.mono {S' : Request → Prop} (h : Ingested b3 S d) (hS : ∀ r, S r → S' r) :
    Ingested b3 S' d := by
  obtain ⟨levels, f, t, ⟨ht, hf, hlinks, hparts⟩, hd⟩ := h
  exact ⟨levels, f, t, ⟨ht, hf, hlinks, fun r hr => hS r (hparts r hr)⟩, hd⟩

/-- A manifest has no digest of a file. -/
theorem Ingested.ne_blob (h : Ingested b3 S d) (hcoll : Collisionless b3 S) {content : List UInt8}
    (hcontent : S (.bytes content)) : d ≠ blobDigest b3 content := by
  obtain ⟨levels, f, t, ht, rfl⟩ := h
  intro hd
  have hhashed := congrArg Prod.fst (hcoll (.tree t) (.bytes content) ht.asked hcontent hd)
  exact absurd hhashed (show Context.tree ≠ Context.blob by decide)

variable (hs : Sound st (Named b3 S) v) (hcoll : Collisionless b3 S)

include hs hcoll

/-- Where such a manifest can be opened, its entries are those that were put. -/
theorem Ingested.entries (h : Ingested b3 S d) (htree : treeAt b3 st v d = .ok t) :
    ∀ e ∈ t.iter, (∀ d' size x, e.2 = .file d' size x →
        ∃ content, S (.bytes content) ∧ d' = blobDigest b3 content) ∧
      ∀ d', e.2 = .dir d' → Ingested b3 S d' := by
  obtain ⟨levels, f, t', ht', rfl⟩ := h
  have hthere : v.find (st.objectPath (t'.digest b3)) ≠ none := by
    intro hnone
    obtain ⟨bytes, hbytes, -⟩ := treeAt_eq_ok htree
    simp [readable, fileAt, hnone, Except.map] at hbytes
  have hread := hs.readable_of_named hcoll ht'.asked hthere
  obtain ⟨-, rfl⟩ := treeAt_unique (ht'.describes.node_fits ht'.links) hread htree
  exact fun e he => ⟨fun d' => (ht'.node he).1, fun d' => (ht'.node he).2⟩

theorem Ingested.leaves (h : Ingested b3 S d) : ∀ x ∈ (refsAt b3 st v).leaves d,
    ∃ content, S (.bytes content) ∧ x = blobDigest b3 content := by
  intro x hx
  rcases htree : treeAt b3 st v d with e | t
  · rw [Marking.Refs.leaves_of_none _ (by rw [refsAt, htree]; rfl)] at hx
    cases hx
  · rw [Marking.Refs.leaves_of_some _ (by rw [refsAt, htree]; rfl), Tree.mem_blobDigests] at hx
    obtain ⟨e, he, size, exec, hfile⟩ := hx
    exact (h.entries hs hcoll htree e he).1 x size exec hfile

theorem Ingested.nodes (h : Ingested b3 S d) : ∀ x ∈ (refsAt b3 st v).nodes d, Ingested b3 S x := by
  intro x hx
  rcases htree : treeAt b3 st v d with e | t
  · rw [Marking.Refs.nodes_of_none _ (by rw [refsAt, htree]; rfl)] at hx
    cases hx
  · rw [Marking.Refs.nodes_of_some _ (by rw [refsAt, htree]; rfl), Tree.mem_subtreeDigests] at hx
    obtain ⟨e, he, hdir⟩ := hx
    exact (h.entries hs hcoll htree e he).2 x hdir

/-- From roots that ingests have returned, the loop marks all that their manifests refer to. -/
theorem mark_closed {roots : List Digest} {n : ℕ} {live : Finset Digest}
    (hroots : ∀ d ∈ roots, Ingested b3 S d)
    (hlive : Marking.markLoop (refsAt b3 st v) n ⟨∅, roots.reverse⟩ = ⟨live, []⟩) :
    Marking.Closed (refsAt b3 st v) (Ingested b3 S) roots ⟨live, []⟩ := by
  rw [← hlive]
  refine Marking.markLoop_closed (fun x hx y hy hy' => ?_) (fun x hx => hx.nodes hs hcoll) n
    (Marking.closed_init hroots)
  obtain ⟨content, hcontent, heq⟩ := hx.leaves hs hcoll y hy
  exact hy'.ne_blob hcoll hcontent heq

end Whole

section Expand

variable {live : Finset Digest}

theorem find_live (hp : Pruned (Garbage st live) v v') (hd : d ∈ live) :
    v'.find (st.objectPath d) = v.find (st.objectPath d) :=
  hp.find_eq fun hgarbage => garbage_objectPath hgarbage hd

theorem readable_live (hp : Pruned (Garbage st live) v v') (hd : d ∈ live) :
    readable v' (st.objectPath d) = readable v (st.objectPath d) := by
  simp only [readable, fileAt, find_live hp hd, hp.inode]

theorem expandEntries_congr {into into' : Digest → Except CasError (List (Path × Node))} :
    ∀ {es : List (EntryName × Node)},
      (∀ e ∈ es, expandEntry st v' into' e = expandEntry st v into e) →
      expandEntries st v' into' es = expandEntries st v into es
  | [], _ => rfl
  | e :: es, h => by
    rw [expandEntries, expandEntries, h e List.mem_cons_self,
      expandEntries_congr fun e' he' => h e' (List.mem_cons_of_mem _ he')]

variable {roots : List Digest} (hs : Sound st (Named b3 S) v) (hcoll : Collisionless b3 S)
  (hclosed : Marking.Closed (refsAt b3 st v) (Ingested b3 S) roots ⟨live, []⟩)
  (hp : Pruned (Garbage st live) v v')

include hs hcoll hclosed hp

/-- What is marked expands to the same when what is not marked is gone. -/
theorem expand_live : ∀ (n : ℕ) {d : Digest}, Ingested b3 S d → d ∈ live →
    expand b3 st v' n d = expand b3 st v n d ∧
      ∀ l, expand b3 st v n d = .ok l → ∀ x ∈ l, shown st v' x.2 = shown st v x.2
  | 0, _, _, _ => ⟨rfl, fun _ h => by cases h⟩
  | n + 1, d, hd, hlive => by
    have htreeAt : treeAt b3 st v' d = treeAt b3 st v d := by
      rw [treeAt, readable_live hp hlive, treeAt]
    rcases htree : treeAt b3 st v d with e | t
    · rw [expand, expand, htreeAt, htree]
      exact ⟨rfl, fun _ h => by cases h⟩
    have hfile : ∀ e ∈ t.iter, ∀ d' size x, e.2 = .file d' size x → d' ∈ live := by
      intro e he d' size x hnode
      refine hclosed.leaves d hlive hd d' ?_
      rw [Marking.Refs.leaves_of_some _ (by rw [refsAt, htree]; rfl)]
      exact Tree.mem_blobDigests.2 ⟨e, he, size, x, hnode⟩
    have hdir : ∀ e ∈ t.iter, ∀ d', e.2 = .dir d' → Ingested b3 S d' ∧ d' ∈ live := by
      intro e he d' hnode
      refine ⟨(hd.entries hs hcoll htree e he).2 d' hnode, ?_⟩
      refine (hclosed.nodes d hlive hd d' ?_).resolve_right (by simp)
      rw [Marking.Refs.nodes_of_some _ (by rw [refsAt, htree]; rfl)]
      exact Tree.mem_subtreeDigests.2 ⟨e, he, hnode⟩
    have hentry : ∀ e ∈ t.iter, expandEntry st v' (expand b3 st v' n) e
        = expandEntry st v (expand b3 st v n) e := by
      rintro ⟨name, ⟨d', size, x⟩ | d' | target⟩ he
      · simp only [expandEntry, find_live hp (hfile _ he d' size x rfl)]
      · obtain ⟨hd', hlive'⟩ := hdir _ he d' rfl
        simp only [expandEntry, (expand_live n hd' hlive').1]
      · rfl
    refine ⟨?_, fun l hl x hx => ?_⟩
    · rw [expand, expand, htreeAt, htree]
      exact expandEntries_congr hentry
    · obtain ⟨t', ht', hl⟩ := expand_succ hl
      obtain rfl : t = t' := Except.ok.inj (htree.symm.trans ht')
      obtain ⟨e, he, l', hl', hx'⟩ := (mem_expandEntries hl x).1 hx
      rcases (mem_expandEntry hl').1 hx' with rfl | ⟨d', l'', hnode, hl'', y, hy, rfl⟩
      · rcases e with ⟨name, ⟨d', size, x⟩ | d' | target⟩
        · simp only [shown, readable_live hp (hfile _ he d' size x rfl)]
        · rfl
        · rfl
      · obtain ⟨hd', hlive'⟩ := hdir e he d' hnode
        exact (expand_live n hd' hlive').2 l'' hl'' y hy

end Expand

/-- Two runs of `materialize_tree` come to the same: the same tree, or the same error. -/
def SameOutcome (dest : Path)
    (o o' : Outcome (Link.Session Machine) Stop StoreEvent MaterializeStats) : Prop :=
  match o.result, o'.result with
  | .ok _, .ok _ => view o'.world.os.volume dest = view o.world.os.volume dest
  | .error e, .error e' => e' = e
  | _, _ => False

/-- Where a digest expands to the same, writing it out comes to the same. -/
theorem sameOutcome_of_expand {w w' : Link.Session Machine} {intent : Intent} {dest : Path}
    (hs : Sound st (Named b3 S) w.os.volume) (hs' : Sound st (Named b3 S) w'.os.volume)
    (hcalm : w.os.Calm) (hcalm' : w'.os.Calm) (hout : ¬st.Inside dest)
    (hfresh : w.os.volume.Free dest ∧ w.os.volume.find dest = none)
    (hfresh' : w'.os.volume.Free dest ∧ w'.os.volume.find dest = none)
    (hexpand : expand b3 st w'.os.volume (maxDepth + 1) d
      = expand b3 st w.os.volume (maxDepth + 1) d)
    (hshown : ∀ l, expand b3 st w.os.volume (maxDepth + 1) d = .ok l →
      ∀ x ∈ l, shown st w'.os.volume x.2 = shown st w.os.volume x.2) :
    SameOutcome dest (materializeTree b3 st intent d dest w)
      (materializeTree b3 st intent d dest w') := by
  obtain ⟨-, -, -, -, hend⟩ := materializeTree_ends b3 d intent hs hout
  obtain ⟨-, -, -, -, hend'⟩ := materializeTree_ends b3 d intent hs' hout
  have hend := hend hfresh.1 hfresh.2
  have hend' := hend' hfresh'.1 hfresh'.2
  unfold SameOutcome
  rcases hr : (materializeTree b3 st intent d dest w).result with e | stats <;>
    rcases hr' : (materializeTree b3 st intent d dest w').result with e' | stats' <;>
    rw [hr] at hend <;> rw [hr'] at hend'
  · obtain ⟨e₀, rfl, he⟩ := hend hcalm
    obtain ⟨e₀', rfl, he'⟩ := hend' hcalm'
    cases (he'.symm.trans hexpand).trans he
    rfl
  · obtain ⟨e₀, rfl, he⟩ := hend hcalm
    obtain ⟨l', hl', -⟩ := hend'
    cases (hl'.symm.trans hexpand).trans he
  · obtain ⟨l, hl, -⟩ := hend
    obtain ⟨e₀', rfl, he'⟩ := hend' hcalm'
    cases (he'.symm.trans hexpand).trans hl
  · obtain ⟨l, hl, hreflects, -⟩ := hend
    obtain ⟨l', hl', hreflects', -⟩ := hend'
    cases (hl'.symm.trans hexpand).trans hl
    exact hreflects'.unique hreflects (hshown l hl)

end Storing

namespace Ledger

open ObjectStore Machine Storing

variable {b3 : Blake3} {st : ObjectStore} {s : Ledger}

/-- A directory that is ingested has symlinks as an operating system has them. -/
def Linkable (s : Ledger) : Op → Prop
  | .ingestDir _ dir => (view s.volume dir).Linkable
  | _ => True

/-- What ingests have returned is the digest of a directory that was put as a whole. -/
structure Ingests (b3 : Blake3) (st : ObjectStore) (s : Ledger) : Prop where
  kept : Kept b3 st s
  ingested : ∀ d ∈ s.ingested, Ingested b3 (· ∈ s.asked) d

theorem Ingests.after (h : Ingests b3 st s) {op : Op} (hop : Apart st s op ∧ s.Linkable op) :
    Ingests b3 st (s.after b3 st op) := by
  have hsteps := h.kept.after hop.1
  have hold : ∀ d ∈ s.ingested, Ingested b3 (· ∈ (s.after b3 st op).asked) d := fun d hd =>
    (h.ingested d hd).mono hsteps.asked
  refine ⟨hsteps.kept, ?_⟩
  cases op with
  | ingestDir stack dir =>
    intro d hd
    rcases hres : (Storing.ingestDir b3 st stack dir s.session).result with e | d'
    · have hsame : (s.after b3 st (.ingestDir stack dir)).ingested = s.ingested := by
        simp only [Ledger.after, hres]
        rfl
      exact hold d (hsame ▸ hd)
    · have hnew : (s.after b3 st (.ingestDir stack dir)).ingested = d' :: s.ingested := by
        simp only [Ledger.after, hres]
        rfl
      rw [hnew] at hd
      rcases List.mem_cons.1 hd with rfl | hd
      · have hend := ingestDir_ends (h.kept.sound.mono (named_append _)) hop.1
          (putsOnly_enter s (Storing.ingestDir b3 st stack dir s.session))
        rw [hres] at hend
        obtain ⟨-, ⟨t, ht, htd⟩, hholds⟩ := hend
        refine ⟨stack, _, t, ⟨ht, view_rooted (Clear.ne_nil hop.1), hop.2, fun r hr => ?_⟩, htd⟩
        rw [asked_ingestDir]
        exact (hholds.stored r hr).1
      · exact hold d hd
  | putBytes bytes => exact hold
  | putFile path => exact hold
  | putTree tree => exact hold
  | materializeTree intent d dest => exact hold
  | gc turns roots minAge => exact hold
  | others v => exact hold

theorem ingests_exec {w : Link.Session Machine} {ops : List Op} (hunused : Unused st w.os.volume)
    (hapart : Runs.AllSteps (step b3 st) (fun s op => Apart st s op ∧ s.Linkable op) (.new w) ops)
    (hs : Runs.exec (step b3 st) (.new w) ops = some s) : Ingests b3 st s :=
  Runs.exec_keeps (fun _ _ _ hI hop hstep => Option.some.inj hstep ▸ hI.after hop)
    ⟨kept_new hunused, fun _ hd => by cases hd⟩ hapart hs

/-- However a store was used before: a collection that returns, and in whose mark loop no call
fails, makes no difference to what is written out for its roots, if ingests have returned them. -/
theorem gc_keeps_ingested {w : Link.Session Machine} {ops : List Op}
    (hunused : Unused st w.os.volume)
    (hapart : Runs.AllSteps (step b3 st) (fun s op => Apart st s op ∧ s.Linkable op) (.new w) ops)
    (hs : Runs.exec (step b3 st) (.new w) ops = some s) (hcoll : Collisionless b3 (· ∈ s.asked))
    {roots : List Digest} (hroots : ∀ d ∈ roots, d ∈ s.ingested) {turns minAge : ℕ}
    {stats : GcStats} (hok : (Storing.gc b3 st turns roots minAge s.session).result = .ok stats)
    (hsteady : Steady s.session.os
      (Storing.mark b3 st turns ⟨∅, roots.reverse⟩ s.session).world.os)
    {d : Digest} (hd : d ∈ roots) {intent : Intent} {dest : Path} (hout : ¬st.Inside dest)
    (hfree : s.volume.Free dest) (hfresh : s.volume.find dest = none)
    {before after : Link.Session Machine} (hbefore : before.os.volume = s.volume)
    (hafter : after.os.volume = (s.after b3 st (.gc turns roots minAge)).volume)
    (hcalm : before.os.Calm) (hcalm' : after.os.Calm) :
    SameOutcome dest (Storing.materializeTree b3 st intent d dest before)
      (Storing.materializeTree b3 st intent d dest after) := by
  have hI := ingests_exec hunused hapart hs
  obtain ⟨live, hsweep, hmark⟩ := gc_ends b3 st minAge roots turns (w := s.session)
  obtain ⟨n, hlive⟩ := hmark stats hok hsteady
  have hp : Pruned (Garbage st live) s.volume after.os.volume := by
    rw [hafter]
    exact hsweep.pruned
  have hclosed := mark_closed hI.kept.sound hcoll (fun x hx => hI.ingested x (hroots x hx)) hlive
  have hdlive : d ∈ live := (hclosed.roots d hd).resolve_right (by simp)
  obtain ⟨hexpand, hshown⟩ := expand_live hI.kept.sound hcoll hclosed hp (maxDepth + 1)
    (hI.ingested d (hroots d hd)) hdlive
  -- the sweep stays in the store
  have hfind : ∀ q, ¬st.Inside q → after.os.volume.find q = s.volume.find q := fun q hq =>
    hp.find_eq fun hgarbage => by
      obtain ⟨fan, file, rfl⟩ := hgarbage.deep
      exact hq (List.prefix_append _ _)
  have hparent : ¬st.Inside dest.dropLast := fun hin => hout (hin.trans (List.dropLast_prefix dest))
  have hfree' : after.os.volume.Free dest :=
    ⟨hfree.1, (isDir_congr (hfind _ hparent)).trans hfree.2.1,
      (isDir_congr (hfind _ hout)).trans hfree.2.2⟩
  refine sameOutcome_of_expand (hbefore ▸ hI.kept.sound) (Sound.pruned hI.kept.sound hp) hcalm
    hcalm' hout (hbefore ▸ ⟨hfree, hfresh⟩) ⟨hfree', (hfind _ hout).trans hfresh⟩ ?_ ?_
  · rw [hbefore]
    exact hexpand
  · rw [hbefore]
    exact hshown

section Sample

/-- A machine on which nothing fails but one call. -/
def flakyAt (fault : Option ℕ) (v : Volume String) : Link.Session Machine :=
  ⟨{ sampleMachine false v with script := fun n =>
      { sampleMoment false with fault := if fault = some n then some (.other 5) else none } }, .new⟩

/-- A directory with a directory in it, after it was ingested. -/
def deepLedger (fault : Option ℕ) : Ledger :=
  (new (flakyAt fault (deepVolume 1))).after sampleBlake3 sampleStore (.ingestDir 2 ["/", "src"])

def collected (s : Ledger) : Ledger := s.after sampleBlake3 sampleStore (.gc 3 s.ingested 0)

def writtenOut (s : Ledger) (d : Digest) :
    Outcome (Link.Session Machine) Stop StoreEvent MaterializeStats :=
  Storing.materializeTree sampleBlake3 sampleStore .privateInode d ["/", "out"]
    (flakyAt none s.volume)

theorem deepVolume_small : Small (deepVolume 1) := by
  decide +kernel

/-- Until the collection nothing fails. -/
theorem deepLedger_runs (fault : Option ℕ) (hfault : fault = none ∨ fault = some 20) :
    (deepLedger fault).ingested.length = 1 ∧
    (Storing.gc sampleBlake3 sampleStore 3 (deepLedger fault).ingested 0
      (deepLedger fault).session).result.toOption.isSome ∧
    (deepLedger fault).volume.Free ["/", "out"] ∧
    (deepLedger fault).volume.find ["/", "out"] = none ∧
    ∀ r ∈ (deepLedger fault).asked, ∀ r' ∈ (deepLedger fault).asked,
      r.digest sampleBlake3 = r'.digest sampleBlake3 → r.hashed = r'.hashed := by
  rcases hfault with rfl | rfl
  · decide +kernel
  · decide +kernel

theorem unread_runs : ∀ d ∈ (deepLedger (some 20)).ingested,
    (writtenOut (deepLedger (some 20)) d).result.toOption.isSome ∧
      (writtenOut (collected (deepLedger (some 20))) d).result.toOption = none := by
  decide +kernel

theorem calm_ingestDir {w : Link.Session Machine} {dir : Path} (hunused : Unused st w.os.volume)
    (hdir : st.Clear dir) (hcalm : w.os.Calm) (stack : ℕ) :
    ((new w).after b3 st (.ingestDir stack dir)).session.os.Calm := by
  have hsound : Sound st (Named b3 fun _ => True) w.os.volume := hunused.sound
  rw [session_ingestDir]
  exact (ingestDir_ends hsound hdir fun _ _ => trivial).served.continues.calm.2 hcalm

/-- The way to the collection is one that every store may take. -/
theorem deepLedger_reached (fault : Option ℕ) :
    Unused sampleStore (flakyAt fault (deepVolume 1)).os.volume ∧
      Runs.AllSteps (step sampleBlake3 sampleStore)
        (fun s op => Apart sampleStore s op ∧ s.Linkable op) (new (flakyAt fault (deepVolume 1)))
        [.ingestDir 2 ["/", "src"]] ∧
      Runs.exec (step sampleBlake3 sampleStore) (new (flakyAt fault (deepVolume 1)))
        [.ingestDir 2 ["/", "src"]] = some (deepLedger fault) :=
  ⟨deepVolume_unused 1, ⟨⟨sampleStore_clear, (deepVolume_small.portable _).target⟩,
    fun _ _ => trivial⟩, rfl⟩

theorem not_sameOutcome {dest : Path}
    {o o' : Outcome (Link.Session Machine) Stop StoreEvent MaterializeStats}
    (h : o.result.toOption.isSome) (h' : o'.result.toOption = none) : ¬SameOutcome dest o o' := by
  unfold SameOutcome
  rcases hr : o.result with e | stats
  · rw [hr] at h
    cases h
  · rcases hr' : o'.result with e' | stats'
    · exact id
    · rw [hr'] at h'
      cases h'

/-- The read of the root fails in the mark loop, and the collection returns. The directory in the
directory is gone. -/
theorem unread_root_lost : ∃ s stats, ∃ d ∈ s.ingested,
    Unused sampleStore (flakyAt (some 20) (deepVolume 1)).os.volume ∧
    Runs.AllSteps (step sampleBlake3 sampleStore)
      (fun s op => Apart sampleStore s op ∧ s.Linkable op)
      (new (flakyAt (some 20) (deepVolume 1))) [.ingestDir 2 ["/", "src"]] ∧
    Runs.exec (step sampleBlake3 sampleStore) (new (flakyAt (some 20) (deepVolume 1)))
      [.ingestDir 2 ["/", "src"]] = some s ∧
    Collisionless sampleBlake3 (· ∈ s.asked) ∧
    (Storing.gc sampleBlake3 sampleStore 3 s.ingested 0 s.session).result = .ok stats ∧
    ¬sampleStore.Inside ["/", "out"] ∧ s.volume.Free ["/", "out"] ∧
    s.volume.find ["/", "out"] = none ∧
    ¬SameOutcome ["/", "out"] (writtenOut s d) (writtenOut (collected s) d) := by
  obtain ⟨hunused, hapart, hexec⟩ := deepLedger_reached (some 20)
  obtain ⟨hlength, hok, hfree, hfresh, hnames⟩ := deepLedger_runs (some 20) (.inr rfl)
  have hlost := unread_runs
  -- from here on the ledger may be any
  revert hexec hlength hok hfree hfresh hnames hlost
  generalize deepLedger (some 20) = s
  intro hexec hlength hok hfree hfresh hnames hlost
  obtain ⟨d, hd⟩ := List.length_eq_one_iff.1 hlength
  have hmem : d ∈ s.ingested := hd ▸ List.mem_cons_self
  obtain ⟨stats, hstats⟩ := Option.isSome_iff_exists.1 hok
  obtain ⟨hbefore, hafter⟩ := hlost d hmem
  exact ⟨s, stats, d, hmem, hunused, hapart, hexec, fun r r' hr hr' => hnames r hr r' hr',
    toOption_eq_some.1 hstats, sampleStore_outside, hfree, hfresh, not_sameOutcome hbefore hafter⟩

/-- Where no read fails, it is still there. -/
theorem deep_root_kept : ∃ d ∈ (deepLedger none).ingested, SameOutcome ["/", "out"]
    (writtenOut (deepLedger none) d) (writtenOut (collected (deepLedger none)) d) := by
  obtain ⟨hunused, hapart, hexec⟩ := deepLedger_reached none
  obtain ⟨hlength, hok, hfree, hfresh, hnames⟩ := deepLedger_runs none (.inl rfl)
  have hcalm : (deepLedger none).session.os.Calm :=
    calm_ingestDir hunused sampleStore_clear (fun _ => rfl) 2
  -- from here on the ledger may be any
  revert hexec hlength hok hfree hfresh hnames hcalm
  generalize deepLedger none = s
  intro hexec hlength hok hfree hfresh hnames hcalm
  obtain ⟨d, hd⟩ := List.length_eq_one_iff.1 hlength
  have hmem : d ∈ s.ingested := hd ▸ List.mem_cons_self
  obtain ⟨stats, hstats⟩ := Option.isSome_iff_exists.1 hok
  exact ⟨d, hmem, gc_keeps_ingested hunused hapart hexec (fun r r' hr hr' => hnames r hr r' hr')
    (fun _ hd => hd) (toOption_eq_some.1 hstats) (fun n _ _ => hcalm n) hmem sampleStore_outside
    hfree hfresh rfl rfl (fun _ => rfl) fun _ => rfl⟩

end Sample

end Ledger

end Jetrun
