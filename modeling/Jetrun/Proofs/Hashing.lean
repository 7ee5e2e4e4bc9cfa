import Jetrun.Hashing
import Jetrun.Proofs.Digest

/-!
# Both ways to hash a file name the same content

The loop ends with the hasher fed the pieces in turn, which is as good as fed the whole.
-/

namespace Jetrun

theorem Hasher.stream_concatenates (b3 : Blake3) : (Hasher.stream b3).Concatenates := by
  intro key pieces pieces' hflat
  simp only [Hasher.stream, Hasher.foldl_update, hflat]

namespace ReadOs

variable {σ ω : Type} {os : ReadOs ω} (H : StreamHasher σ) {path : Path} {w : ω}
  {content : List UInt8} {pieces : List (List UInt8)}

section Loop

variable {fd : ℕ}

/-- A turn feeds what the read moved and nothing that was in the buffer before. -/
theorem hashReads_piece {buf piece rest : List UInt8} (turns : ℕ) (h : σ) (hne : piece ≠ [])
    (hread : (os.readInto fd buf w).1 = (.ok piece.length, piece ++ rest)) :
    os.hashReads H path fd (turns + 1) buf h w
      = os.hashReads H path fd turns (piece ++ rest) (H.update h piece)
        (os.readInto fd buf w).2 := by
  have hpos : piece.length ≠ 0 := List.length_eq_zero_iff.not.2 hne
  have hle : piece.length ≤ (piece ++ rest).length := by simp
  rw [hashReads, ← Prod.mk.eta (p := os.readInto fd buf w), hread]
  simp only [if_neg hpos, if_pos hle, List.take_left]

theorem hashReads_end {buf : List UInt8} (turns : ℕ) (h : σ)
    (hread : (os.readInto fd buf w).1.1 = .ok 0) :
    (os.hashReads H path fd (turns + 1) buf h w).1 = some (.ok h) := by
  rw [hashReads, ← Prod.mk.eta (p := os.readInto fd buf w),
    ← Prod.mk.eta (p := (os.readInto fd buf w).1), hread]
  rfl

/-- Where the system splits what is left into these pieces, the loop feeds them in turn. -/
theorem hashReads_eq : ∀ {pieces : List (List UInt8)} {turns : ℕ} {buf : List UInt8} {w : ω} (h : σ),
    os.Splits fd pieces w → buf.length = streamChunk → pieces.length < turns →
      (os.hashReads H path fd turns buf h w).1 = some (.ok (pieces.foldl H.update h))
  | [], turns + 1, buf, w, h, hsplits, hbuf, _ => hashReads_end H turns h (hsplits buf hbuf)
  | piece :: pieces, turns + 1, buf, w, h, hsplits, hbuf, hturns => by
    obtain ⟨hne, -, hreads⟩ := hsplits
    obtain ⟨rest, hrest, hread, hsplits⟩ := hreads buf hbuf
    rw [hashReads_piece H turns h hne hread]
    exact hashReads_eq _ hsplits hrest (Nat.lt_of_succ_lt_succ hturns)

/-- No piece is empty, so there are no more of them than bytes. -/
theorem Splits.length_le : ∀ {pieces : List (List UInt8)} {w : ω}, os.Splits fd pieces w →
    pieces.length ≤ pieces.flatten.length
  | [], _, _ => Nat.le_refl _
  | piece :: pieces, w, hsplits => by
    obtain ⟨hne, -, hreads⟩ := hsplits
    obtain ⟨rest, -, -, hsplits⟩ := hreads (List.replicate streamChunk 0) List.length_replicate
    have hpos := List.length_pos_iff.2 hne
    have hle := hsplits.length_le
    rw [List.length_cons, List.flatten_cons, List.length_append]
    omega

end Loop

/-- What is hashed is the pieces fed in turn, or all of them at once. -/
theorem hashFile_pieces {turns : ℕ} (hfile : os.Holds path content pieces w)
    (hturns : content.length < turns) (size : ℕ) : (os.hashFile H turns path size w).1
      = some (.ok (if size ≤ smallFileLimit then H.blobDigest content
        else H.finalize (pieces.foldl H.update (H.keyed Context.blob)))) := by
  unfold hashFile
  split_ifs
  · rw [← Prod.mk.eta (p := os.read path w), hfile.whole]
  · obtain ⟨fd, hopen, hsplits⟩ := hfile.opened
    have hturns : pieces.length < turns := by
      have hle := hsplits.length_le
      rw [hfile.flatten] at hle
      omega
    have hloop : (os.hashReads H path fd turns (List.replicate streamChunk 0)
        (H.keyed Context.blob) (os.openFile path w).2).1
        = some (.ok (pieces.foldl H.update (H.keyed Context.blob))) :=
      hashReads_eq H _ hsplits List.length_replicate hturns
    rw [← Prod.mk.eta (p := os.openFile path w), hopen]
    simp only [hloop, Option.map_some, Except.map]

/-- However large the file is said to be and however the system splits its reads, the digest is that
of its content. -/
theorem hashFile_names {turns : ℕ} (hcat : H.Concatenates) (hfile : os.Holds path content pieces w)
    (hturns : content.length < turns) (size : ℕ) :
    (os.hashFile H turns path size w).1 = some (.ok (H.blobDigest content)) := by
  have hpieces : H.finalize (pieces.foldl H.update (H.keyed Context.blob)) = H.blobDigest content :=
    hcat _ pieces [content] (by rw [hfile.flatten, List.flatten_singleton])
  rw [hashFile_pieces H hfile hturns, hpieces, ite_self]

/-- A hasher that keeps what it was fed yields what ingesting such a file yields. -/
theorem hashFile_stream (b3 : Blake3) {turns : ℕ} (hfile : os.Holds path content pieces w)
    (hturns : content.length < turns) (size : ℕ) :
    (os.hashFile (Hasher.stream b3) turns path size w).1
      = some (.ok (Jetrun.hashFile b3 ⟨true, content, pieces⟩ size)) := by
  rw [hashFile_pieces _ hfile hturns]
  rfl

end ReadOs

section Sample

open ReadOs

theorem pieceOs_splits : ∀ {pieces : List (List UInt8)},
    (∀ p ∈ pieces, p ≠ [] ∧ p.length ≤ streamChunk) → pieceOs.Splits 0 pieces pieces
  | [], _ => fun _ _ => rfl
  | piece :: pieces, h => by
    obtain ⟨hne, hle⟩ := h piece List.mem_cons_self
    refine ⟨hne, hle, fun buf hbuf => ⟨buf.drop piece.length, ?_, rfl, ?_⟩⟩
    · rw [List.length_append, List.length_drop, hbuf]
      omega
    · exact pieceOs_splits fun p hp => h p (List.mem_cons_of_mem _ hp)

/-- Every way to split a content is one of some system. -/
theorem pieceOs_holds (path : Path) {pieces : List (List UInt8)}
    (h : ∀ p ∈ pieces, p ≠ [] ∧ p.length ≤ streamChunk) :
    pieceOs.Holds path pieces.flatten pieces pieces where
  flatten := rfl
  whole := rfl
  opened := ⟨0, rfl, pieceOs_splits h⟩

/-- Three bytes in two reads, of a file that is said to be large. -/
theorem sample_hashed : (pieceOs.hashFile (Hasher.stream sampleBlake3) 4 ["a"] (smallFileLimit + 1)
    [[1], [2, 3]]).1 = some (.ok ((Hasher.stream sampleBlake3).blobDigest [1, 2, 3])) :=
  hashFile_names _ (Hasher.stream_concatenates sampleBlake3)
    (pieceOs_holds ["a"] (show ∀ p ∈ [[1], [2, 3]], p ≠ [] ∧ p.length ≤ streamChunk by decide))
    (by decide) _

end Sample

end Jetrun
