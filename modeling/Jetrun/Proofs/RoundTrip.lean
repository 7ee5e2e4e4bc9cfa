import Jetrun.Proofs.WriteOut

/-!
# There and back

What was ingested from a directory is what is written out again, and to ingest that names the same
tree.
-/

namespace Jetrun

open Traced Volumes Volumes.Volume

namespace Storing

open ObjectStore Machine

variable {b3 : Blake3} {st : ObjectStore} {S : Request → Prop} {N : Digest → List UInt8 → Prop}
  {w : Link.Session Machine} {levels : ℕ} {dir dest : Path} {d : Digest} {intent : Intent}

variable (b3 d intent) in
/-- `materialize_tree` as an operation of a store. -/
theorem materializeTree_ends (hs : Sound st N w.os.volume) (hout : ¬st.Inside dest) :
    Continues w.os (materializeTree b3 st intent d dest w).world.os ∧
      Sound st N (materializeTree b3 st intent d dest w).world.os.volume ∧
      Beside (dest <+: ·) w.os.volume (materializeTree b3 st intent d dest w).world.os.volume ∧
      SameObjects st w.os.volume (materializeTree b3 st intent d dest w).world.os.volume ∧
      (w.os.volume.Free dest → w.os.volume.find dest = none →
        match (materializeTree b3 st intent d dest w).result with
        | .ok stats => ∃ l, expand b3 st w.os.volume (maxDepth + 1) d = .ok l ∧
          Reflects st w.os.volume l
            (view (materializeTree b3 st intent d dest w).world.os.volume dest) ∧
          Counted { MaterializeStats.zero with dirs := 1 } (l.map Prod.snd) stats
        | .error stop => w.os.Calm → ∃ e, stop = .failed e ∧
          expand b3 st w.os.volume (maxDepth + 1) d = .error e) := by
  have hleads : Leads (fun _ => True) (ObjectStore.materializeTree Machine.os b3 st intent d dest)
      (Materialized b3 st N d dest ⟨w, .zero⟩ []) ⟨w, .zero⟩ [] := materializeTree_leads hs hout
  obtain ⟨hw, hsame, hres⟩ := hleads fun _ _ => trivial
  refine ⟨hw.continues, hw.sound, hw.beside, hsame, fun hfree hnone => ?_⟩
  have hend := hres hfree hnone
  unfold materializeTree
  simp only []
  rcases hr : (ObjectStore.materializeTree Machine.os b3 st intent d dest ⟨w, .zero⟩).result
    with e | stats
  · rw [hr] at hend
    exact fun hc => ⟨e, rfl, hend hc⟩
  · rw [hr] at hend
    exact hend

/-- What was put can be read. -/
theorem Sound.readable_of_named {v : Volume String} {r : Request} (hs : Sound st (Named b3 S) v)
    (hcoll : Collisionless b3 S) (hr : S r) (hthere : v.find (st.objectPath (r.digest b3)) ≠ none) :
    readable v (st.objectPath (r.digest b3)) = .ok r.content := by
  obtain ⟨e, he⟩ := Option.ne_none_iff_exists'.1 hthere
  obtain ⟨i, rfl, ⟨r', hr', hd, hcontent⟩, -⟩ := hs.object _ e he
  rw [readable, fileAt_eq_ok he]
  refine congrArg Except.ok ?_
  show (v.inode i).content = r.content
  rw [← hcontent, Request.content_of_hashed (hcoll r' r hr' hr hd)]

section Sample

/-- A volume on which no path is too long and no symlink's target is too long or empty. -/
def Small (v : Volume String) : Prop :=
  v.entries.keys.length < 2 ^ 32 ∧ ∀ p ∈ v.entries.keys, p.length ≤ maxDepth ∧
    match v.find p with
    | some (.symlink target) => target ≠ [] ∧ target.length < 2 ^ 16
    | _ => True

instance (v : Volume String) : Decidable (Small v) := by
  unfold Small
  refine @instDecidableAnd _ _ _ (@List.decidableBAll _ _ (fun p => ?_) _)
  refine @instDecidableAnd _ _ _ ?_
  split
  · exact inferInstance
  · exact inferInstance

theorem Small.portable {v : Volume String} (h : Small v) (dir : Path) : (view v dir).Portable := by
  have hkey : ∀ {rel s}, view v dir rel = some s → dir ++ rel ∈ v.entries.keys := by
    intro rel s hs
    obtain ⟨e, he, -⟩ := Option.map_eq_some_iff.1 hs
    exact AList.mem_keys.1 (AList.lookup_isSome.1 (Option.isSome_of_eq_some he))
  refine ⟨fun rel odd hodd => ?_, fun rel target htarget => ?_, fun rel ns hns hthere => ?_⟩
  · have hlen := (h.2 _ (hkey hodd)).1
    rw [List.length_append] at hlen
    omega
  · have hlink := (h.2 _ (hkey htarget)).2
    obtain ⟨e, he, hseen⟩ := Option.map_eq_some_iff.1 htarget
    rcases e with i | odd | target' | _
    · cases hseen
    · cases hseen
    · cases hseen
      rwa [he] at hlink
    · cases hseen
  · refine lt_of_le_of_lt ?_ h.1
    rw [← List.length_map (fun n => dir ++ (rel ++ [n]))]
    refine List.Subperm.length_le ((hns.map fun n m heq => ?_).subperm fun p hp => ?_)
    · simpa using heq
    · obtain ⟨n, hn, rfl⟩ := List.mem_map.1 hp
      obtain ⟨s, hs⟩ := Option.ne_none_iff_exists'.1 (hthere n hn)
      exact hkey hs

theorem sampleStore_outside : ¬sampleStore.Inside ["/", "out"] := by
  unfold Inside
  decide

end Sample

end Storing

end Jetrun
