import Jetrun.Proofs.RoundTrip

/-!
# How deep a tree may be

An ingest goes as deep as the stack allows, and writing out stops at a fixed depth. The two agree on
the trees that are no deeper than that, and have no more entries in a directory than are counted.
-/

namespace Jetrun

open Traced Volumes Volumes.Volume

namespace Storing

open ObjectStore Machine

variable {b3 : Blake3} {st : ObjectStore} {S : Request → Prop} {w : Link.Session Machine}
  {levels : ℕ} {dir dest : Path} {d : Digest} {intent : Intent}

section Deep

def rank (d : Digest) : ℕ := LittleEndian.ofLe d.bytes

def deepSetup : StateM Machine Unit := do
  let _ ← createDirAll ["/", "cas", "objects"]
  let _ ← createDirAll ["/", "cas", "tmp"]
  let _ ← createDirAll ["/", "src"]

/-- A store that was just opened, and beside it directories in directories. -/
def deepVolume : ℕ → Volume String
  | 0 => (deepSetup (sampleMachine false emptyVolume)).2.volume
  | k + 1 => (mkdir (deepVolume k) (["/", "src"] ++ List.replicate (k + 1) "d")).2

theorem deepVolume_zero : Unused sampleStore (deepVolume 0) ∧
    (deepVolume 0).find ["/", "src"] = some (.dir []) ∧
    ∀ p ∈ (deepVolume 0).entries.keys, ["/", "src"] <+: p → p = ["/", "src"] := by
  decide +kernel

/-- Beside the source, nothing is made. -/
theorem deepVolume_find : ∀ k, (∀ rel, (deepVolume k).find (["/", "src"] ++ rel)
      = if rel = List.replicate rel.length "d" ∧ rel.length ≤ k then some (.dir []) else none) ∧
    ∀ q, ¬["/", "src"] <+: q → (deepVolume k).find q = (deepVolume 0).find q
  | 0 => by
    refine ⟨fun rel => ?_, fun _ _ => rfl⟩
    rcases rel with _ | ⟨n, rel⟩
    · exact deepVolume_zero.2.1
    · rw [if_neg (by simp)]
      by_contra hne
      have hkey := AList.mem_keys.1 (AList.lookup_isSome.1 (Option.isSome_iff_ne_none.2 hne))
      have heq := deepVolume_zero.2.2 _ hkey (List.prefix_append _ _)
      simp at heq
  | k + 1 => by
    obtain ⟨hsrc, hbeside⟩ := deepVolume_find k
    have hparent : (deepVolume k).isDir (["/", "src"] ++ List.replicate k "d") = true :=
      isDir_of_find ((hsrc _).trans (if_pos (by simp)))
    have hnone : (deepVolume k).find (["/", "src"] ++ List.replicate (k + 1) "d") = none :=
      (hsrc _).trans (if_neg (by simp))
    have hfree : (deepVolume k).Free (["/", "src"] ++ List.replicate (k + 1) "d") := by
      refine ⟨by simp, ?_, isDir_eq_false (by simp) fun odd hodd => ?_⟩
      · rwa [List.replicate_succ', ← List.append_assoc, List.dropLast_concat]
      · cases hnone.symm.trans hodd
    have hput : ∀ q, (deepVolume (k + 1)).find q
        = if q = ["/", "src"] ++ List.replicate (k + 1) "d" then some (.dir [])
          else (deepVolume k).find q := by
      intro q
      rw [deepVolume, mkdir, dif_pos ⟨hfree, hnone⟩, find_put]
    refine ⟨fun rel => ?_, fun q hq => ?_⟩
    · rw [hput, hsrc]
      by_cases hrel : rel = List.replicate (k + 1) "d"
      · rw [if_pos (by rw [hrel]), hrel, if_pos (by simp)]
      · rw [if_neg fun heq => hrel (List.append_cancel_left heq)]
        refine if_congr (and_congr_right fun hall => ?_) rfl rfl
        constructor
        · exact fun hle => Nat.le_succ_of_le hle
        · intro hle
          have hne : rel.length ≠ k + 1 := fun hlen => hrel (by rw [hall, hlen])
          omega
    · rw [hput, if_neg fun heq => hq (by rw [heq]; exact List.prefix_append _ _)]
      exact hbeside q hq

theorem deepVolume_unused (k : ℕ) : Unused sampleStore (deepVolume k) := by
  have hbase : Unused sampleStore (deepVolume 0) := deepVolume_zero.1
  have hfind : ∀ {q}, ¬["/", "src"] <+: q → (deepVolume k).find q = (deepVolume 0).find q :=
    fun hq => (deepVolume_find k).2 _ hq
  have hdir : ∀ {q}, ¬["/", "src"] <+: q → (deepVolume k).isDir q = (deepVolume 0).isDir q :=
    fun hq => isDir_congr (hfind hq)
  have hkeys : ∀ {q : Path}, q ∈ (deepVolume k).entries.keys → ¬["/", "src"] <+: q →
      q ∈ (deepVolume 0).entries.keys := by
    intro q hq hsrc
    rw [← AList.mem_keys, ← AList.lookup_isSome] at hq ⊢
    exact (congrArg Option.isSome (hfind hsrc)).symm.trans hq
  have hout : ∀ {q p : Path}, ["/", "cas"] <+: p → p <+: q → ¬["/", "src"] <+: q := by
    rintro q p ⟨rest, rfl⟩ ⟨rest', rfl⟩ hsrc
    simp at hsrc
  have htmp : ["/", "cas"] <+: sampleStore.tmp := ⟨["tmp"], rfl⟩
  have hobjects : ["/", "cas"] <+: sampleStore.objects := ⟨["objects"], rfl⟩
  refine ⟨?_, ?_, fun q hq => ⟨fun hp => ?_, fun hp => ?_⟩⟩
  · rw [hdir (hout htmp (List.prefix_refl _))]
    exact hbase.1
  · rw [hdir (hout hobjects (List.prefix_refl _))]
    exact hbase.2.1
  · exact (hbase.2.2 q (hkeys hq (hout htmp hp))).1 hp
  · exact (hbase.2.2 q (hkeys hq (hout hobjects hp))).2 hp

theorem Unused.ready {m : Machine} (h : Unused st m.volume) (d : Digest) : Ready st m d := by
  refine .inr (.inl ?_)
  by_contra hne
  have hkey := AList.mem_keys.1 (AList.lookup_isSome.1 (Option.isSome_iff_ne_none.2 hne))
  exact st.stagingPath_ne_tmp d ((h.2.2 _ hkey).1 ⟨_, (st.stagingPath_eq d).symm⟩)

end Deep

section Sample

end Sample

end Storing

end Jetrun
