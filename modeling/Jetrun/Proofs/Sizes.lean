import Jetrun.Proofs.PowerCut
import Jetrun.Proofs.Unfold

/-!
# The size that nobody compares

A manifest declares how long each of its files is. What is written out is as long as the object is,
and the two are not compared on the way.
-/

namespace Jetrun

open Traced Volumes

namespace ObjectStore

open Machine

variable {b3 : Blake3} {st : ObjectStore} {v : Volume String} {N : Digest → List UInt8 → Prop}

section Nodes

/-- What a digest expands to is what its manifest and those below it hold. -/
theorem nodeAt_of_mem_expand : ∀ {n : ℕ} {d : Digest} {l : List (Path × Node)},
    expand b3 st v n d = .ok l → ∀ x ∈ l, NodeAt b3 st v d x.1 x.2
  | 0, _, _, h => by cases h
  | n + 1, d, l, h => by
    intro x hx
    obtain ⟨t, ht, hl⟩ := expand_succ h
    obtain ⟨e, he, l', hl', hx'⟩ := (mem_expandEntries hl x).1 hx
    rcases (mem_expandEntry hl').1 hx' with rfl | ⟨sub, l'', hsub, hl'', y, hy, rfl⟩
    · exact .entry ht he
    · have he' : (e.1, .dir sub) ∈ t.iter := hsub ▸ he
      exact .inside ht he' (nodeAt_of_mem_expand hl'' y hy)

theorem mem_expand_of_nodeAt {d : Digest} {rel : Path} {node : Node}
    (h : NodeAt b3 st v d rel node) : ∀ {n : ℕ} {l : List (Path × Node)},
      expand b3 st v n d = .ok l → (rel, node) ∈ l := by
  induction h with
  | @entry d t e ht he =>
    intro n l hl
    rcases n with _ | n
    · cases hl
    obtain ⟨t', ht', hl'⟩ := expand_succ hl
    cases ht.symm.trans ht'
    obtain ⟨l', hentry⟩ := expandEntries_entry hl' he
    exact (mem_expandEntries hl' _).2 ⟨e, he, l', hentry, (mem_expandEntry hentry).2 (.inl rfl)⟩
  | @inside d t name sub rel node ht he _ ih =>
    intro n l hl
    rcases n with _ | n
    · cases hl
    obtain ⟨t', ht', hl'⟩ := expand_succ hl
    cases ht.symm.trans ht'
    obtain ⟨l', hentry⟩ := expandEntries_entry hl' he
    obtain ⟨l'', hsub⟩ := into_of_expandEntry hentry
    exact (mem_expandEntries hl' _).2 ⟨_, he, l', hentry,
      (mem_expandEntry hentry).2 (.inr ⟨sub, l'', rfl, hsub, _, ih hsub, rfl⟩)⟩

/-- A manifest of files only has no nodes but its own. -/
theorem NodeAt.of_flat {d : Digest} {t : Tree} {rel : Path} {node : Node}
    (ht : treeAt b3 st v d = .ok t) (hflat : ∀ e ∈ t.iter, ∀ sub, e.2 ≠ .dir sub)
    (h : NodeAt b3 st v d rel node) : ∃ e ∈ t.iter, node = e.2 := by
  cases h with
  | entry ht' he =>
    cases ht.symm.trans ht'
    exact ⟨_, he, rfl⟩
  | inside ht' he _ =>
    cases ht.symm.trans ht'
    exact absurd rfl (hflat _ he _)

end Nodes

section Fresh

variable {w : World Machine} {h : List FsEvent} {ok : FsEvent → Prop} {d : Digest} {dest : Path}
  {intent : Intent}

theorem materializeTree_taken (hs : Storing.Sound st N w.session.os.volume)
    (hnot : ¬(w.session.os.volume.Free dest ∧ w.session.os.volume.find dest = none)) :
    Leads ok (ObjectStore.materializeTree Machine.os b3 st intent d dest)
      (fun r _ _ => ∃ e, r = .error e) w h := by
  have hgo : Leads ok (do
      count fun _ => .zero
      materializeInto Machine.os b3 st intent (maxDepth + 1) d dest
      Traced.act fun w => (w.stats, w)) (fun r _ _ => ∃ e, r = .error e)
      { w with session := { w.session with os := w.session.os.after w.session.os.volume } } h := by
    refine leads_act_bind ?_
    unfold Acts
    refine leads_bind ?_
    refine Leads.mono (createDir_taken maxDepth hs hnot) ?_
    rintro _ w' h' ⟨-, -, e, rfl⟩
    exact ⟨e, rfl⟩
  refine leads_call_bind (acts_forget (acts_query (fun e _ => hgo) ?_))
  rcases w.session.os.volume.find dest with _ | e
  · exact hgo
  · exact leads_ofExcept ⟨_, rfl⟩

end Fresh

end ObjectStore

namespace Storing

open ObjectStore Machine

variable {b3 : Blake3} {st : ObjectStore} {w : Link.Session Machine} {d : Digest} {dest : Path}
  {intent : Intent} {stats : MaterializeStats}

section Writing

/-- A tree is only ever written to a fresh place. -/
theorem materializeTree_fresh (hs : Sound st (fun _ _ => True) w.os.volume)
    (hok : (materializeTree b3 st intent d dest w).result = .ok stats) :
    w.os.volume.Free dest ∧ w.os.volume.find dest = none := by
  by_contra hnot
  have hleads : Leads (fun _ => True) (ObjectStore.materializeTree Machine.os b3 st intent d dest)
      _ ⟨w, .zero⟩ [] := materializeTree_taken hs hnot
  obtain ⟨e, he⟩ := hleads.outcome
  cases he.symm.trans (Except.eq_ok_of_mapError hok)

/-- A tree that was written out has files of the declared lengths exactly if its objects have. -/
theorem sizes_iff (hs : Sound st (fun _ _ => True) w.os.volume) (hout : ¬st.Inside dest)
    (hok : (materializeTree b3 st intent d dest w).result = .ok stats) :
    PlacedInFull b3 st w.os.volume d
        (view (materializeTree b3 st intent d dest w).world.os.volume dest) ↔
      HeldInFull b3 st w.os.volume d := by
  obtain ⟨hfree, hnone⟩ := materializeTree_fresh hs hok
  obtain ⟨-, -, -, -, hend⟩ := materializeTree_ends b3 d intent hs hout
  have hwritten := hend hfree hnone
  rw [hok] at hwritten
  obtain ⟨l, hl, hreflects, -⟩ := hwritten
  unfold PlacedInFull HeldInFull
  refine forall₄_congr fun rel object size executable => imp_congr_right fun hnode => ?_
  have hplaced := hreflects.entry _ (mem_expand_of_nodeAt hnode hl)
  rw [hplaced]
  rcases hread : readable w.os.volume (st.objectPath object) with e | c
  · simp [shown, hread, Except.toOption]
  · simp [shown, hread, Except.toOption]

end Writing

section Sample

/-- A directory with one file of two bytes. -/
def cutTree : Tree := Tree.new.insert nameA (.file cutDigest 2 false)

def treeDigest : Digest := cutTree.digest sampleBlake3

def beforeTreeCut : Outcome (Link.Session Machine) Stop StoreEvent Digest :=
  putTree sampleBlake3 sampleStore cutTree beforeCut.world

/-- What a power loss leaves that spares so many bytes of the file, whose inode is 2. -/
def treeVolume (n : ℕ) : Volume String :=
  let v := beforeTreeCut.world.os.volume
  v.setInode 2 ⟨(v.inode 2).content.take n, (v.inode 2).mode, (v.inode 2).modified⟩

def cutOut (n : ℕ) : Outcome (Link.Session Machine) Stop StoreEvent MaterializeStats :=
  materializeTree sampleBlake3 sampleStore .overlayLower treeDigest ["/", "out"]
    ⟨sampleMachine false (treeVolume n), .new⟩

theorem cutOut_runs : (cutOut 1).result.toOption.isSome ∧ (cutOut 2).result.toOption.isSome ∧
    view (cutOut 1).world.os.volume ["/", "out"] ["a"] = some (.file [120] false) ∧
    readable (treeVolume 2) (sampleStore.objectPath cutDigest) = .ok cutBytes ∧
    readable (treeVolume 1) (sampleStore.objectPath treeDigest) = .ok cutTree.encode ∧
    readable (treeVolume 2) (sampleStore.objectPath treeDigest) = .ok cutTree.encode := by
  decide +kernel

theorem treeVolume_sound (n : ℕ) : Sound sampleStore (fun _ _ => True) (treeVolume n) := by
  have hwhole : Sound sampleStore (Named sampleBlake3 fun _ => True)
      beforeTreeCut.world.os.volume := beforeCut_sound.after_put trivial
  -- nothing was ever flushed in this store
  have hcut : PowerCut ⟨fun _ => True, fun _ => False⟩ beforeTreeCut.world.os.volume
      (treeVolume n) := by
    unfold treeVolume
    exact PowerCut.take (fun _ _ => trivial) n
  exact hcut.sound (hwhole.mono fun _ _ _ => trivial)

theorem cutTree_fits : cutTree.Fits := by decide +kernel

/-- The file that was cut short is written out without an error. -/
theorem truncated_placed : ∃ stats, Sound sampleStore (fun _ _ => True) (treeVolume 1) ∧
    ¬sampleStore.Inside ["/", "out"] ∧ (cutOut 1).result = .ok stats ∧
    ¬PlacedInFull sampleBlake3 sampleStore (treeVolume 1) treeDigest
      (view (cutOut 1).world.os.volume ["/", "out"]) := by
  obtain ⟨hsome, -, hview, -, hread, -⟩ := cutOut_runs
  have hat : treeAt sampleBlake3 sampleStore (treeVolume 1) treeDigest = .ok cutTree :=
    treeAt_of_readable cutTree_fits hread
  rcases hres : (cutOut 1).result with e | stats
  · rw [hres] at hsome
    cases hsome
  · refine ⟨stats, treeVolume_sound 1, sampleStore_outside, rfl, fun hfull => ?_⟩
    have hentry : (nameA, Node.file cutDigest 2 false) ∈ cutTree.iter := List.mem_singleton.2 rfl
    obtain ⟨content, hcontent, hlen⟩ := hfull _ _ _ _ (.entry hat hentry)
    cases hview.symm.trans hcontent
    cases hlen

/-- The file that was spared has both of its bytes. -/
theorem whole_placed : PlacedInFull sampleBlake3 sampleStore (treeVolume 2) treeDigest
    (view (cutOut 2).world.os.volume ["/", "out"]) := by
  obtain ⟨-, hsome, -, hread, -, hmanifest⟩ := cutOut_runs
  have hat : treeAt sampleBlake3 sampleStore (treeVolume 2) treeDigest = .ok cutTree :=
    treeAt_of_readable cutTree_fits hmanifest
  have hheld : HeldInFull sampleBlake3 sampleStore (treeVolume 2) treeDigest := by
    intro rel object size executable hnode
    have hiter : cutTree.iter = [(nameA, .file cutDigest 2 false)] := rfl
    obtain ⟨e, he, hsame⟩ := hnode.of_flat hat (by simp [hiter])
    rw [hiter, List.mem_singleton] at he
    subst he
    cases hsame
    exact ⟨cutBytes, hread, rfl⟩
  rcases hres : (cutOut 2).result with e | stats
  · rw [hres] at hsome
    cases hsome
  · exact (sizes_iff (treeVolume_sound 2) sampleStore_outside hres).2 hheld

end Sample

end Storing

end Jetrun
