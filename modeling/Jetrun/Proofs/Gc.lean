import Jetrun.Proofs.Names
import Jetrun.Proofs.Tree

/-!
# What garbage collection removes

A sweep removes a file only if the digest it is named by was not marked and the file is at least
`minAge` old (`gc_removes`). So nothing that the mark loop reaches is lost, and nothing that was
written less than `minAge` ago.

The mark loop reaches everything the roots refer to unless an entry of kind file names a tree
before the loop has opened it, and a put makes its object as young as the clock unless the object
was there before.
-/

namespace Jetrun

namespace ObjectStore

variable (b3 : Blake3) (st : ObjectStore)

theorem has_iff {disk : Disk} {d : Digest} :
    st.has disk d = true ↔ ∃ o, disk.lookup (st.objectPath d) = some o := by
  rw [has, List.contains_iff_mem, ← AList.mem_keys, ← AList.lookup_isSome,
    Option.isSome_iff_exists]

section Trees

/-- A manifest the format has room for reads back under its own digest. -/
theorem getTree_of_encode {disk : Disk} {t : Tree} {o : Object} (hfits : t.Fits)
    (ho : disk.lookup (st.objectPath (t.digest b3)) = some o) (hc : o.content = t.encode) :
    st.getTree b3 disk (t.digest b3) = .ok t := by
  simp [getTree, treeOf, bytesOf, readFile, ho, hc, Tree.decode_encode_of_fits hfits,
    Except.mapError, bind, Except.bind, pure, Except.pure]

theorem refs_of_getTree {disk : Disk} {d : Digest} {t : Tree}
    (h : st.getTree b3 disk d = .ok t) :
    st.refs b3 disk d = some (t.blobDigests, t.subtreeDigests) := by
  simp [refs, h]

theorem refs_of_decode_error {disk : Disk} {d : Digest} {o : Object} {e : TreeError}
    (ho : disk.lookup (st.objectPath d) = some o) (he : Tree.decode o.content = .error e) :
    st.refs b3 disk d = none := by
  simp [refs, getTree, treeOf, bytesOf, readFile, ho, he, bind, Except.bind, Except.mapError]

theorem mark_nil (disk : Disk) : st.mark b3 disk [] = ∅ := by simp [mark]

theorem getTree_missing {disk : Disk} {d : Digest}
    (h : disk.lookup (st.objectPath d) = none) : st.getTree b3 disk d = .error (.missing d) := by
  simp [getTree, treeOf, bytesOf, readFile, h, bind, Except.bind]

/-- Only digests that name a file refer to anything. -/
theorem mem_named_of_nodes {disk : Disk} {d : Digest} (h : (st.refs b3 disk).nodes d ≠ []) :
    d ∈ named disk := by
  rcases ho : disk.lookup (st.objectPath d) with _ | o
  · refine absurd ((st.refs b3 disk).nodes_of_none ?_) h
    simp [refs, st.getTree_missing b3 ho]
  · refine List.mem_filterMap.2 ⟨st.objectPath d, ?_, st.fileDigest_objectPath d⟩
    rw [← AList.mem_keys, ← AList.lookup_isSome, ho]
    rfl

end Trees

section Removes

/-- From `before` to `after` nothing changed but files that are not in `live` and at least `minAge`
old, which may be gone. -/
def Removes (live : Finset Digest) (now minAge : ℕ) (before after : Disk) : Prop :=
  ∀ p, after.lookup p = before.lookup p ∨
    after.lookup p = none ∧ ∃ d o, fileDigest p = some d ∧ d ∉ live ∧ before.lookup p = some o ∧
      minAge ≤ now - o.modified

variable {st} {live : Finset Digest} {now minAge : ℕ}

theorem Removes.refl (disk : Disk) : Removes live now minAge disk disk := fun _ => .inl rfl

theorem Removes.trans {d₁ d₂ d₃ : Disk} (h : Removes live now minAge d₁ d₂)
    (h' : Removes live now minAge d₂ d₃) : Removes live now minAge d₁ d₃ := fun p => by
  rcases h' p with h2 | ⟨h2, d, o, hd, hl, ho, hage⟩
  · rw [h2]
    exact h p
  · rcases h p with h1 | ⟨h1, -⟩
    · exact .inr ⟨h2, d, o, hd, hl, h1 ▸ ho, hage⟩
    · simp [h1] at ho

/-- However the attempt to remove an old file that is not marked ends. -/
theorem unlink_removes {path : Path} {d : Digest} {o : Object} {s : Sweep} {stats : GcStats}
    (hd : fileDigest path = some d) (hl : d ∉ live) (ho : s.disk.lookup path = some o)
    (hage : minAge ≤ now - o.modified) (unlink : Option IoError) :
    Removes live now minAge s.disk
      (match unlink with
        | none => ((⟨s.disk.erase path, stats⟩ : Sweep), none)
        | some .notFound => (s, none)
        | some e => (s, some (CasError.io "unlink object" path e))).1.disk := by
  rcases unlink with _ | _ | _ | _ | _
  · intro p
    by_cases hp : p = path
    · subst hp
      exact .inr ⟨AList.lookup_erase _ _, d, o, hd, hl, ho, hage⟩
    · exact .inl (AList.lookup_erase_ne hp)
  all_goals exact Removes.refl _

variable (st live now minAge)

theorem sweepEntry_removes (fanPath : Path) (entry : DirEntry) (s : Sweep) :
    Removes live now minAge s.disk (sweepEntry live now minAge fanPath entry s).1.disk := by
  rcases hd : fileDigest (fanPath.push entry.name) with _ | d
  · simp only [sweepEntry, hd]
    exact Removes.refl _
  by_cases hl : d ∈ live
  · simp only [sweepEntry, hd, if_pos hl]
    exact Removes.refl _
  rcases ho : (if entry.metadata then s.disk.lookup (fanPath.push entry.name) else none) with _ | o
  · simp only [sweepEntry, hd, if_neg hl, ho]
    exact Removes.refl _
  have hlook : s.disk.lookup (fanPath.push entry.name) = some o := by
    split_ifs at ho
    exact ho
  simp only [sweepEntry, hd, if_neg hl, ho]
  split_ifs with hold hage hage
  · exact Removes.refl _
  · exact unlink_removes hd hl hlook (not_lt.1 hage) entry.unlink
  · exact Removes.refl _
  · exact unlink_removes hd hl hlook ((not_lt.1 hage).trans (Nat.zero_le _)) entry.unlink

theorem sweepEntries_removes (fanPath : Path) :
    ∀ (entries : List (Except IoError DirEntry)) (s : Sweep),
      Removes live now minAge s.disk (sweepEntries live now minAge fanPath entries s).1.disk
  | [], s => Removes.refl _
  | .error _ :: _, s => Removes.refl _
  | .ok entry :: entries, s => by
    have h := sweepEntry_removes live now minAge fanPath entry s
    unfold sweepEntries
    rcases hs : sweepEntry live now minAge fanPath entry s with ⟨s', _ | e⟩
    · rw [hs] at h
      exact h.trans (sweepEntries_removes fanPath entries s')
    · rw [hs] at h
      exact h

theorem sweepFans_removes : ∀ (fans : List Fan) (s : Sweep),
    Removes live now minAge s.disk (st.sweepFans live now minAge fans s).1.disk
  | [], s => Removes.refl _
  | .failed _ :: _, s => Removes.refl _
  | .unreadable _ _ :: _, s => Removes.refl _
  | .other :: fans, s => sweepFans_removes fans s
  | .listed name entries :: fans, s => by
    have h := sweepEntries_removes live now minAge (st.objects.push name) entries s
    unfold sweepFans
    rcases hs : sweepEntries live now minAge (st.objects.push name) entries s with ⟨s', _ | e⟩
    · rw [hs] at h
      exact h.trans (sweepFans_removes fans s')
    · rw [hs] at h
      exact h

/-- Garbage collection removes only files that it has not marked and that are old enough. -/
theorem gc_removes (disk : Disk) (roots : List Digest) (listing : Except IoError (List Fan)) :
    Removes (st.mark b3 disk roots) now minAge disk
      (st.gc b3 disk now roots minAge listing).1 := by
  unfold gc
  rcases listing with e | fans
  · exact Removes.refl _
  · have h := st.sweepFans_removes (st.mark b3 disk roots) now minAge fans
      ⟨disk, ⟨(st.mark b3 disk roots).card, 0, 0, 0⟩⟩
    simp only []
    rcases hs : st.sweepFans (st.mark b3 disk roots) now minAge fans
      ⟨disk, ⟨(st.mark b3 disk roots).card, 0, 0, 0⟩⟩ with ⟨s', _ | e⟩
    · rw [hs] at h
      exact h
    · rw [hs] at h
      exact h

end Removes

section Sample

/-- A store with one blob, a directory that holds it, and a directory that names that directory's
manifest once as a file and once as a directory. -/
def sampleStore : ObjectStore := openWith ["/", "cas"] .relaxed

def sampleBlob : Digest := blobDigest sampleBlake3 [120]

def nameA : EntryName := ⟨"a", by decide, by decide, by decide, by decide, by decide⟩

def nameB : EntryName := ⟨"b", by decide, by decide, by decide, by decide, by decide⟩

def sampleInner : Tree := Tree.new.insert nameA (.file sampleBlob 1 false)

def sampleOuter : Tree :=
  (Tree.new.insert nameA (.file (sampleInner.digest sampleBlake3) 44 false)).insert nameB
    (.dir (sampleInner.digest sampleBlake3))

def sampleDisk : Disk :=
  ((AList.insert (sampleStore.objectPath sampleBlob) ⟨[120], 0⟩ ∅).insert
    (sampleStore.objectPath (sampleInner.digest sampleBlake3)) ⟨sampleInner.encode, 0⟩).insert
    (sampleStore.objectPath (sampleOuter.digest sampleBlake3)) ⟨sampleOuter.encode, 0⟩

/-- A listing of one object, with no faults. -/
def sampleListing (d : Digest) : Except IoError (List Fan) :=
  .ok [.listed d.fanout [.ok ⟨d.toHex, true, true, none⟩]]

theorem lookup_insert_object {disk : Disk} {d d' : Digest} (h : d ≠ d') (o : Object) :
    (disk.insert (st.objectPath d') o).lookup (st.objectPath d)
      = disk.lookup (st.objectPath d) :=
  AList.lookup_insert_ne fun hp => h (st.objectPath_inj hp)

/-- A collection that lists one object, which it has not marked and which is old enough. -/
theorem gc_one {disk : Disk} {now minAge : ℕ} {roots : List Digest} {d : Digest} {o : Object}
    (hl : d ∉ st.mark b3 disk roots) (ho : disk.lookup (st.objectPath d) = some o)
    (hage : minAge ≤ now - o.modified) :
    (st.gc b3 disk now roots minAge (sampleListing d)).1 = disk.erase (st.objectPath d) := by
  have hname : fileDigest ((st.objects.push d.fanout).push d.toHex) = some d :=
    st.fileDigest_objectPath d
  have hlook : disk.lookup ((st.objects.push d.fanout).push d.toHex) = some o := ho
  simp [gc, sampleListing, sweepFans, sweepEntries, sweepEntry, hname, hlook, hl, hage.not_gt,
    objectPath]

theorem sample_lookup :
    sampleDisk.lookup (sampleStore.objectPath sampleBlob) = some ⟨[120], 0⟩ ∧
      sampleDisk.lookup (sampleStore.objectPath (sampleInner.digest sampleBlake3))
        = some ⟨sampleInner.encode, 0⟩ ∧
      sampleDisk.lookup (sampleStore.objectPath (sampleOuter.digest sampleBlake3))
        = some ⟨sampleOuter.encode, 0⟩ := by
  have h1 : sampleBlob ≠ sampleInner.digest sampleBlake3 := by decide +kernel
  have h2 : sampleBlob ≠ sampleOuter.digest sampleBlake3 := by decide +kernel
  have h3 : sampleInner.digest sampleBlake3 ≠ sampleOuter.digest sampleBlake3 := by decide +kernel
  refine ⟨?_, ?_, AList.lookup_insert _⟩
  · rw [sampleDisk, lookup_insert_object _ h2, lookup_insert_object _ h1, AList.lookup_insert]
  · rw [sampleDisk, lookup_insert_object _ h3, AList.lookup_insert]

theorem sample_refs :
    sampleStore.refs sampleBlake3 sampleDisk (sampleInner.digest sampleBlake3)
        = some ([sampleBlob], []) ∧
      sampleStore.refs sampleBlake3 sampleDisk (sampleOuter.digest sampleBlake3)
        = some ([sampleInner.digest sampleBlake3], [sampleInner.digest sampleBlake3]) := by
  have hinner : sampleInner.Fits := by decide +kernel
  have houter : sampleOuter.Fits := by decide +kernel
  refine ⟨?_, ?_⟩
  · rw [sampleStore.refs_of_getTree _ (sampleStore.getTree_of_encode _ hinner sample_lookup.2.1 rfl)]
    rfl
  · rw [sampleStore.refs_of_getTree _ (sampleStore.getTree_of_encode _ houter sample_lookup.2.2 rfl)]
    rfl

end Sample

section Reachable

/-- Where no file entry names a tree that the walk from the roots has yet to visit, garbage
collection removes no object that is reachable from the roots. -/
theorem gc_keeps_reachable (disk : Disk) (now : ℕ) (roots : List Digest) (minAge : ℕ)
    (listing : Except IoError (List Fan))
    (hb : Marking.LeavesBehind (st.refs b3 disk)
      (Marking.visits (st.refs b3 disk) (named disk) roots))
    {d : Digest} (hd : (st.refs b3 disk).Reach roots d) :
    (st.gc b3 disk now roots minAge listing).1.lookup (st.objectPath d)
      = disk.lookup (st.objectPath d) := by
  have hlive : d ∈ st.mark b3 disk roots :=
    Marking.markLoop_complete (fun _ => st.mem_named_of_nodes b3) hb le_rfl hd
  rcases st.gc_removes b3 now minAge disk roots listing (st.objectPath d)
    with h | ⟨-, d', -, hd', hl, -⟩
  · exact h
  · rw [fileDigest_objectPath, Option.some.injEq] at hd'
    exact absurd hlive (hd' ▸ hl)

/-- A tree that one directory names twice, as a file and as a directory, is never opened: what only
it refers to is removed. -/
theorem gc_loses_reachable :
    (sampleStore.refs sampleBlake3 sampleDisk).Reach [sampleOuter.digest sampleBlake3] sampleBlob
      ∧ sampleDisk.lookup (sampleStore.objectPath sampleBlob) = some ⟨[120], 0⟩
      ∧ (sampleStore.gc sampleBlake3 sampleDisk 0 [sampleOuter.digest sampleBlake3] 0
          (sampleListing sampleBlob)).1.lookup (sampleStore.objectPath sampleBlob) = none := by
  obtain ⟨hinner, houter⟩ := sample_refs
  have hne : sampleBlob ≠ sampleOuter.digest sampleBlake3 ∧
      sampleBlob ≠ sampleInner.digest sampleBlake3 := by decide +kernel
  -- one turn: it marks the inner tree as a file, so it does not push it as a directory
  have hone : Marking.markLoop (sampleStore.refs sampleBlake3 sampleDisk) 1
      ⟨∅, [sampleOuter.digest sampleBlake3]⟩
        = ⟨{sampleInner.digest sampleBlake3, sampleOuter.digest sampleBlake3}, []⟩ := by
    simp [Marking.markLoop, Marking.markStep, houter]
  have hmark : sampleBlob ∉
      sampleStore.mark sampleBlake3 sampleDisk [sampleOuter.digest sampleBlake3] := by
    rw [mark, Marking.markLoop_eq_of_done
      (Marking.markLoop_turns (fun _ => sampleStore.mem_named_of_nodes sampleBlake3) le_rfl)
      (n := 1) (by simp [hone])]
    simp [hone, hne.1, hne.2]
  refine ⟨?_, sample_lookup.1, ?_⟩
  · refine .leaf (d := sampleInner.digest sampleBlake3) (.node (.root List.mem_cons_self) ?_) ?_
    · simp [Marking.Refs.nodes, houter]
    · simp [Marking.Refs.leaves, hinner]
  · rw [gc_one _ _ hmark sample_lookup.1 (Nat.zero_le _), AList.lookup_erase]

/-- From the inner tree alone every reference is in order, and its blob stays. -/
theorem gc_keeps_inner :
    (sampleStore.gc sampleBlake3 sampleDisk 0 [sampleInner.digest sampleBlake3] 0
        (sampleListing sampleBlob)).1.lookup (sampleStore.objectPath sampleBlob)
      = sampleDisk.lookup (sampleStore.objectPath sampleBlob) := by
  have hblob : sampleStore.refs sampleBlake3 sampleDisk sampleBlob = none :=
    sampleStore.refs_of_decode_error _ sample_lookup.1 (e := .truncated) rfl
  have hnodes : (sampleStore.refs sampleBlake3 sampleDisk).nodes
      (sampleInner.digest sampleBlake3) = [] := by rw [Marking.Refs.nodes, sample_refs.1]; rfl
  have hleaves : (sampleStore.refs sampleBlake3 sampleDisk).leaves
      (sampleInner.digest sampleBlake3) = [sampleBlob] := by
    rw [Marking.Refs.leaves, sample_refs.1]; rfl
  refine gc_keeps_reachable sampleBlake3 sampleStore sampleDisk 0
    [sampleInner.digest sampleBlake3] 0 (sampleListing sampleBlob) ?_
    (.leaf (.root List.mem_cons_self) (by simp [hleaves]))
  rw [Marking.visits_singleton hnodes]
  simp [Marking.LeavesBehind, hleaves, hblob]

end Reachable

section Young

/-- The put finds no object of its digest, or one that is not older than the clock. -/
def Refreshes (s : InUse) (op : ℕ × Op) : Prop :=
  ∀ d, op.2.target b3 = some d → ∀ o, s.disk.lookup (st.objectPath d) = some o → op.1 ≤ o.modified

theorem putObject_there {disk : Disk} {d : Digest} {o : Object}
    (h : disk.lookup (st.objectPath d) = some o) (now : ℕ) (content : List UInt8) :
    st.putObject disk now d content ⟨false, none⟩ = (disk, .ok d) := by
  simp [putObject, st.has_iff.2 ⟨o, h⟩]

/-- A put finds its object there, fails, or writes it now. -/
theorem putObject_cases (disk : Disk) (now : ℕ) (d : Digest) (content : List UInt8) (io : PutIo) :
    st.putObject disk now d content io = (disk, .ok d) ∨
      (∃ e, st.putObject disk now d content io = (disk, .error e)) ∨
      st.putObject disk now d content io
        = (disk.insert (st.objectPath d) ⟨content, now⟩, .ok d) := by
  unfold putObject insert
  split_ifs
  · exact .inl rfl
  rcases io.insertError with _ | e
  · exact .inr (.inr rfl)
  · exact .inr (.inl ⟨e, rfl⟩)

/-- What an operation does to the disk, and which digest it returns. -/
theorem apply_cases (disk : Disk) (now : ℕ) (op : Op) :
    (∃ put, st.apply b3 disk now op = (disk, put) ∧ ∀ d, put = some d → op.target b3 = some d) ∨
      (∃ d content, op.target b3 = some d ∧
        st.apply b3 disk now op = (disk.insert (st.objectPath d) ⟨content, now⟩, some d)) ∨
      ∃ roots minAge listing, op = .gc roots minAge listing ∧
        st.apply b3 disk now op = ((st.gc b3 disk now roots minAge listing).1, none) := by
  cases op with
  | putBytes bytes io =>
    rcases st.putObject_cases disk now (blobDigest b3 bytes) bytes io with h | ⟨e, h⟩ | h
    · exact .inl ⟨_, by rw [apply, putBytes, h], fun d hd => by
      simpa [Except.toOption, Op.target] using hd⟩
    · exact .inl ⟨_, by rw [apply, putBytes, h], fun d hd => by simp [Except.toOption] at hd⟩
    · exact .inr (.inl ⟨_, bytes, rfl, by rw [apply, putBytes, h]; rfl⟩)
  | putTree tree io =>
    rcases st.putObject_cases disk now (tree.digest b3) tree.encode io with h | ⟨e, h⟩ | h
    · exact .inl ⟨_, by rw [apply, putTree, h], fun d hd => by
      simpa [Except.toOption, Op.target] using hd⟩
    · exact .inl ⟨_, by rw [apply, putTree, h], fun d hd => by simp [Except.toOption] at hd⟩
    · exact .inr (.inl ⟨_, tree.encode, rfl, by rw [apply, putTree, h]; rfl⟩)
  | putFile path file io =>
    rcases hs : io.statError with _ | e
    · by_cases hf : file.isFile
      · rcases hr : io.readError with _ | e
        · rcases st.putObject_cases disk now (hashFile b3 file file.size) file.content io.toPutIo
            with h | ⟨e, h⟩ | h
          · refine .inl ⟨_, by simp only [apply, putFile, hs, hf, hr, h]; rfl, fun d hd => ?_⟩
            simpa [Except.toOption, Except.map, Op.target] using hd
          · refine .inl ⟨_, by simp only [apply, putFile, hs, hf, hr, h]; rfl, fun d hd => ?_⟩
            simp [Except.toOption, Except.map] at hd
          · exact .inr (.inl ⟨_, file.content, rfl, by
              simp only [apply, putFile, hs, hf, hr, h]; rfl⟩)
        · exact .inl ⟨none, by simp [apply, putFile, hs, hf, hr, Except.toOption], by simp⟩
      · exact .inl ⟨none, by simp [apply, putFile, hs, hf, Except.toOption], by simp⟩
    · exact .inl ⟨none, by simp [apply, putFile, hs, Except.toOption], by simp⟩
  | gc roots minAge listing => exact .inr (.inr ⟨roots, minAge, listing, rfl, rfl⟩)

/-- Every successful put is in the past, and its object, if it is still there, is no older. -/
def Stamped (s : InUse) : Prop :=
  ∀ put ∈ s.puts, put.2 ≤ s.clock ∧
    ∀ o, s.disk.lookup (st.objectPath put.1) = some o → put.2 ≤ o.modified

theorem step_stamped {s s' : InUse} {op : ℕ × Op} (h : Stamped st s) (hok : Refreshes b3 st s op)
    (hs : st.step b3 s op = some s') : Stamped st s' := by
  obtain ⟨now, op⟩ := op
  unfold step at hs
  split_ifs at hs with hclock
  simp only [not_lt] at hclock
  rw [Option.some.injEq] at hs
  subst hs
  rcases st.apply_cases b3 s.disk now op with ⟨put, he, hput⟩ | ⟨d, content, hd, he⟩ |
    ⟨roots, minAge, listing, rfl, he⟩
  · simp only [he]
    rintro ⟨d, t⟩ hmem
    rcases List.mem_append.1 hmem with hnew | hold
    · simp only [Option.mem_toList, Option.map_eq_some_iff, Prod.mk.injEq] at hnew
      obtain ⟨d', hp, rfl, rfl⟩ := hnew
      exact ⟨le_rfl, fun o ho => hok d' (hput d' hp) o ho⟩
    · exact ⟨(h _ hold).1.trans hclock, (h _ hold).2⟩
  · simp only [he]
    rintro ⟨d', t⟩ hmem
    have ht : t ≤ now ∧ (d' ≠ d → ∀ o, s.disk.lookup (st.objectPath d') = some o →
        t ≤ o.modified) := by
      simp only [Option.map_some, Option.toList_some, List.singleton_append, List.mem_cons,
        Prod.mk.injEq] at hmem
      rcases hmem with ⟨rfl, rfl⟩ | hold
      · exact ⟨le_rfl, fun hne => absurd rfl hne⟩
      · exact ⟨(h _ hold).1.trans hclock, fun _ => (h _ hold).2⟩
    refine ⟨ht.1, fun o ho => ?_⟩
    by_cases hdd : d' = d
    · subst hdd
      rw [AList.lookup_insert, Option.some.injEq] at ho
      subst ho
      exact ht.1
    · rw [AList.lookup_insert_ne fun hp => hdd (st.objectPath_inj hp)] at ho
      exact ht.2 hdd o ho
  · simp only [he]
    rintro ⟨d, t⟩ hmem
    have hold := h (d, t) (by simpa using hmem)
    refine ⟨hold.1.trans hclock, fun o ho => ?_⟩
    rcases st.gc_removes b3 now minAge s.disk roots listing
      (st.objectPath d) with hsame | ⟨hnone, -⟩
    · exact hold.2 o (hsame ▸ ho)
    · simp [hnone] at ho

/-- In a run whose every put finds no object older than the clock, a collection that runs less than
`minAge` after a successful put leaves that put's object as it is. -/
theorem gc_spares_puts {disk : Disk} {start : ℕ} {ops : List (ℕ × Op)} {s : InUse}
    (hok : Runs.AllSteps (st.step b3) (Refreshes b3 st) ⟨disk, start, []⟩ ops)
    (hrun : Runs.exec (st.step b3) ⟨disk, start, []⟩ ops = some s) {now : ℕ}
    (hnow : s.clock ≤ now) (roots : List Digest) (minAge : ℕ)
    (listing : Except IoError (List Fan)) {d : Digest} {t : ℕ} (hput : (d, t) ∈ s.puts)
    (hyoung : now < t + minAge) :
    (st.gc b3 s.disk now roots minAge listing).1.lookup (st.objectPath d)
      = s.disk.lookup (st.objectPath d) := by
  have hstart : Stamped st ⟨disk, start, []⟩ := fun _ h => absurd h (by simp)
  have hs : Stamped st s :=
    Runs.exec_keeps (fun _ _ _ hI hok hstep => step_stamped b3 st hI hok hstep) hstart hok hrun
  obtain ⟨ht, hmod⟩ := hs (d, t) hput
  rcases st.gc_removes b3 now minAge s.disk roots listing (st.objectPath d)
    with hsame | ⟨-, d', o, -, -, ho, hage⟩
  · exact hsame
  · have := hmod o ho
    simp only [] at this ht
    omega

/-- A put of content that is there already leaves the object as old as it was. -/
theorem gc_loses_put :
    ∃ s, Runs.exec (sampleStore.step sampleBlake3) ⟨sampleDisk, 0, []⟩
        [(1000, .putBytes [120] ⟨false, none⟩)] = some s
      ∧ (sampleBlob, 1000) ∈ s.puts ∧ s.clock ≤ 1001 ∧ 1001 < 1000 + 100
      ∧ s.disk.lookup (sampleStore.objectPath sampleBlob) = some ⟨[120], 0⟩
      ∧ (sampleStore.gc sampleBlake3 s.disk 1001 [] 100 (sampleListing sampleBlob)).1.lookup
          (sampleStore.objectPath sampleBlob) = none := by
  have hput : sampleStore.apply sampleBlake3 sampleDisk 1000 (.putBytes [120] ⟨false, none⟩)
      = (sampleDisk, some sampleBlob) := by
    have hthere : sampleStore.putObject sampleDisk 1000 (blobDigest sampleBlake3 [120]) [120]
        ⟨false, none⟩ = (sampleDisk, .ok sampleBlob) :=
      sampleStore.putObject_there sample_lookup.1 1000 [120]
    rw [apply, putBytes, hthere]
    rfl
  refine ⟨⟨sampleDisk, 1000, [(sampleBlob, 1000)]⟩, ?_, List.mem_cons_self, by decide, by decide,
    sample_lookup.1, ?_⟩
  · simp [Runs.exec, step, hput]
  · rw [gc_one _ _ (by simp [mark_nil]) sample_lookup.1 (by decide), AList.lookup_erase]

/-- One put and a collection ninety-nine ticks later. -/
theorem gc_spares_one_put :
    (sampleStore.gc sampleBlake3 (sampleStore.putBytes sampleBlake3 ∅ 5 [120] ⟨false, none⟩).1 104
        [] 100 (sampleListing sampleBlob)).1.lookup (sampleStore.objectPath sampleBlob)
      = (sampleStore.putBytes sampleBlake3 ∅ 5 [120] ⟨false, none⟩).1.lookup
        (sampleStore.objectPath sampleBlob) :=
  have hrun : Runs.exec (sampleStore.step sampleBlake3) ⟨∅, 0, []⟩
      [(5, .putBytes [120] ⟨false, none⟩)]
      = some ⟨(sampleStore.putBytes sampleBlake3 ∅ 5 [120] ⟨false, none⟩).1, 5,
        [(sampleBlob, 5)]⟩ := rfl
  have hfresh : Runs.AllSteps (sampleStore.step sampleBlake3) (Refreshes sampleBlake3 sampleStore)
      ⟨∅, 0, []⟩ [(5, .putBytes [120] ⟨false, none⟩)] :=
    ⟨fun _ _ _ ho => absurd ho (by simp), fun _ _ => trivial⟩
  gc_spares_puts sampleBlake3 sampleStore hfresh hrun (by decide) [] 100
    (sampleListing sampleBlob) List.mem_cons_self (by decide)

end Young

end ObjectStore

end Jetrun
