import Jetrun.Lib.Building
import Jetrun.Materialize
import Jetrun.Proofs.Tree

/-!
# A materialized tree stays in its destination

Whatever the store holds, the names of a decoded tree are valid and distinct. So each entry is built
at a path of its own below the directory of its tree, which was created just before.
-/

namespace Jetrun

open Building Traced

namespace FsEvent

/-- A directory is opened and a file is filled by the call that succeeds. -/
def kinds : Kinds String FsEvent where
  path := path
  creates := creates
  opens e := ∃ p, e = createDir p (.ok ())
  fills e := ∃ src dst place mode, e = materialize src dst place (.ok mode)
  opens_creates := by
    rintro _ ⟨p, rfl⟩
    rfl
  fills_creates := by
    rintro _ ⟨src, dst, place, mode, rfl⟩
    rfl

end FsEvent

abbrev BuildsAt (roots : List Path) (trace : List FsEvent) : Prop :=
  Builds FsEvent.kinds PlainName roots trace

theorem BuildsAt.confined {dest : Path} {trace : List FsEvent} (h : BuildsAt [dest] trace) :
    Confined dest trace where
  inside e he := by
    obtain ⟨r, hr, ns, hns⟩ := h.below e he
    rw [List.mem_singleton.1 hr] at hns
    exact ⟨ns, hns⟩
  parents := h.parents.mono fun before e _ hold p hdest hpe hne => by
    obtain ⟨d, hd, ⟨q, rfl⟩, rfl⟩ := hold dest (by simp) p hdest hpe hne
    exact hd
  once := h.once
  undiverted := h.undiverted.mono fun before e _ hold target p result hmem => by
    refine hold _ hmem rfl ?_ ?_
    · rintro ⟨q, hq⟩
      cases hq
    · rintro ⟨src, dst, place, mode, hq⟩
      cases hq

namespace EntryName

theorem plain_name (n : EntryName) : PlainName n.text :=
  ⟨n.nonempty, n.short, n.no_separator, n.no_nul, n.not_dot⟩

/-- A name is accepted if it is plain, and only then. -/
theorem new_ok_iff (s : String) : (∃ n, new s = .ok n) ↔ PlainName s := by
  constructor
  · rintro ⟨n, h⟩
    unfold new at h
    split_ifs at h with h1 h2 h3 h4 h5
    exact ⟨h1, not_lt.1 h2, h4, h5, not_or.1 h3⟩
  · rintro ⟨h1, h2, h4, h5, h3⟩
    exact ⟨⟨s, h1, h2, h3, h4, h5⟩, new_text ⟨s, h1, h2, h3, h4, h5⟩⟩

theorem push_text (n : EntryName) (dest : Path) : dest.push n.text = dest ++ [n.text] :=
  Path.push_plain n.plain dest

end EntryName

section Calls

variable {ω α β : Type} {P : Except CasError β → List FsEvent → Prop}

theorem sat_call_bind {g : StateM ω α} {f : α → Materializing ω β} (h : ∀ a, Sat (f a) P) :
    Sat (call g >>= f) P :=
  sat_act_bind h

theorem sat_check {op : String} {path : Path} {result : Except IoError Unit}
    {Q : Except CasError Unit → List FsEvent → Prop} (h : ∀ r, Q r []) :
    Sat (check op path result : Materializing ω Unit) Q :=
  sat_ofExcept (h _)

theorem sat_check_bind {op : String} {path : Path} {result : Except IoError α}
    {f : α → Materializing ω β} (hok : ∀ a, result = .ok a → Sat (f a) P)
    (herror : ∀ e, P (.error e) []) : Sat (check op path result >>= f) P := by
  refine sat_ofExcept_bind (fun a ha => ?_) fun e _ => herror e
  rcases result with e | _ <;> cases ha
  exact hok a rfl

end Calls

namespace ObjectStore

variable {ω : Type} (os : Os ω) (b3 : Blake3) (st : ObjectStore) (intent : Intent)

theorem placeFile_builds (child : Path) (digest : Digest) (size : UInt64) (executable : Bool) :
    Sat (st.placeFile os intent child digest size executable) fun _ l => BuildsAt [child] l := by
  unfold placeFile
  refine sat_call_bind fun found => ?_
  split_ifs
  · refine sat_act_bind fun result => sat_emit_bind ?_
    have hone : BuildsAt [child] [.materialize (st.objectPath digest) child
        (placeIntent intent executable) result] :=
      builds_one rfl rfl
    refine sat_check_bind (fun mode hmode => sat_act_bind fun _ => ?_) fun _ => hone
    subst hmode
    unfold sealFile
    split_ifs
    · exact sat_pure hone
    · refine sat_call_bind fun _ => sat_check_bind (fun _ _ => ?_) fun _ => hone
      refine sat_call_bind fun result => sat_emit_bind (sat_check fun _ => ?_)
      exact Builds.touch hone ⟨_, _, _, _, rfl⟩ rfl rfl rfl
  · exact sat_ofExcept (builds_nil _)

theorem placeEntry_builds {into : Digest → Path → Materializing ω Unit}
    (hinto : ∀ d p, Sat (into d p) fun _ l => BuildsAt [p] l) (dest : Path)
    (entry : EntryName × Node) :
    Sat (st.placeEntry os intent into dest entry) fun _ l =>
      BuildsAt [dest ++ [entry.1.text]] l := by
  unfold placeEntry
  rw [entry.1.push_text]
  rcases entry.2 with ⟨digest, size, executable⟩ | digest | target
  · exact st.placeFile_builds os intent _ digest size executable
  · exact hinto digest _
  · refine sat_call_bind fun result => sat_emit_bind ?_
    have hone : BuildsAt [dest ++ [entry.1.text]]
        [.symlink target (dest ++ [entry.1.text]) result] := builds_one rfl rfl
    exact sat_check_bind (fun _ _ _ => hone) fun _ => hone

/-- The entries of one directory, one after the other, are built side by side. -/
theorem placeEntries_builds {into : Digest → Path → Materializing ω Unit}
    (hinto : ∀ d p, Sat (into d p) fun _ l => BuildsAt [p] l) (dest : Path)
    (entries : List (EntryName × Node)) (hnames : (entries.map (·.1)).Nodup) :
    Sat (entries.forM (st.placeEntry os intent into dest)) fun _ l =>
      BuildsAt ((entries.map (·.1.text)).map fun n => dest ++ [n]) l := by
  have hloop := sat_forM (T := fun entry l => BuildsAt [dest ++ [entry.1.text]] l)
    (L := fun entries l => (entries.map (·.1)).Nodup →
      BuildsAt ((entries.map (·.1.text)).map fun n => dest ++ [n]) l)
    (fun _ _ => builds_nil _) (fun entry rest l l' h h' hnodup => ?_) entries
    fun entry _ => st.placeEntry_builds os intent hinto dest entry
  · exact hloop.mono fun _ _ h => h hnames
  · rw [List.map_cons, List.nodup_cons] at hnodup
    refine h.append (h' hnodup.2) fun a ha b hb => ?_
    obtain ⟨n, hn, rfl⟩ := List.mem_map.1 hb
    obtain ⟨other, hother, rfl⟩ := List.mem_map.1 hn
    rw [List.mem_singleton.1 ha]
    refine apart_siblings dest fun hsame => hnodup.1 ?_
    rw [EntryName.ext_text hsame]
    exact List.mem_map_of_mem hother

theorem materializeInto_builds (levels : ℕ) (d : Digest) (dest : Path) :
    Sat (st.materializeInto os b3 intent levels d dest) fun _ l => BuildsAt [dest] l := by
  induction levels generalizing d dest with
  | zero => exact sat_ofExcept (builds_nil _)
  | succ levels ih =>
    unfold materializeInto
    refine sat_call_bind fun result => sat_emit_bind ?_
    have hone : BuildsAt [dest] [.createDir dest result] := builds_one rfl rfl
    refine sat_check_bind (fun _ hok => sat_act_bind fun _ => ?_) fun _ => hone
    refine sat_call_bind fun reply => sat_ofExcept_bind (fun tree _ => ?_) fun _ _ => hone
    have hentries := st.placeEntries_builds os intent ih dest tree.iter tree.entries.keys_nodup
    refine hentries.mono fun _ l hl => hl.open (fun n hn => ?_) ⟨dest, by rw [hok]⟩ rfl
    obtain ⟨entry, -, rfl⟩ := List.mem_map.1 hn
    exact entry.1.plain_name

/-- Materialization never escapes its destination, whatever the store holds and the operating
system answers. -/
theorem materializeTree_confined (d : Digest) (dest : Path) (w : World ω) :
    Confined dest (st.materializeTree os b3 intent d dest w).trace := by
  have hbuilds : Sat (st.materializeTree os b3 intent d dest) fun _ l => BuildsAt [dest] l := by
    unfold materializeTree
    refine sat_call_bind fun found => ?_
    rcases found with e | -
    · refine sat_act_bind fun _ => ?_
      refine sat_bind (st.materializeInto_builds os b3 intent (maxDepth + 1) d dest)
        (fun _ l hl => ?_) fun _ l hl => hl
      intro w
      simpa [act] using hl
    · exact sat_ofExcept (builds_nil _)
  exact (hbuilds w).confined

section Sample

/-- Every call succeeds, and every file has this content. -/
def easyOs (content : List UInt8) : Os Unit where
  lstat _ := pure (.error .notFound)
  stat _ := pure (.ok ())
  pathExists _ := pure true
  read _ := pure (.ok content)
  createDir _ := pure (.ok ())
  removeFile _ := pure (.error .notFound)
  openRead _ := pure (.ok ())
  createNew _ := pure (.ok ())
  ficlone _ _ := pure (.ok ())
  hardLink _ _ := pure (.ok ())
  copy _ _ := pure (.ok ())
  symlink _ _ := pure (.ok ())
  setPermissions _ _ := pure (.ok ())

/-- A tree with a link out of it, and a file. -/
def outwardTree : Tree :=
  (Tree.new.insert ⟨"etc", by decide, by decide, by decide, by decide, by decide⟩
    (.symlink "/etc")).insert ⟨"run", by decide, by decide, by decide, by decide, by decide⟩
    (.file (blobDigest sampleBlake3 []) 0 true)

example : ((openWith ["/", "cas"] .relaxed).materializeTree (easyOs outwardTree.encode)
    sampleBlake3 .overlayLower (outwardTree.digest sampleBlake3) ["work"]
    ⟨⟨(), .new⟩, .zero⟩).trace.map FsEvent.path =
      [["work"], ["work", "etc"], ["work", "run"], ["work", "run"]] := by decide +kernel

end Sample

end ObjectStore

end Jetrun
