import Jetrun.Digest
import Jetrun.Fs
import Jetrun.Lib.Utf8

/-!
# Digests and hashers

Neither the hex form of a digest nor its fan-out directory has anything in it that a path would treat
specially. The shard that owns it is a remainder, however the remainder
is computed. What a hasher was fed in frames says what the fields were.
-/

namespace Jetrun

namespace Path

/-- A text that a path takes for one component. -/
def Plain (s : String) : Prop := s ≠ "" ∧ s ≠ "." ∧ '/' ∉ s.toList

theorem split_of_notMem : ∀ {cs : List Char}, '/' ∉ cs → split cs = [cs]
  | [], _ => rfl
  | c :: cs, h => by
    rw [List.mem_cons, not_or] at h
    simp [split, Ne.symm h.1, split_of_notMem h.2]

theorem components_plain {s : String} (h : Plain s) : components s = [s] := by
  obtain ⟨h1, h2, h3⟩ := h
  have hhead : s.toList.head? ≠ some '/' := fun hs => h3 (List.mem_of_mem_head? hs)
  simp [components, hhead, split_of_notMem h3, h1, h2]

theorem push_plain {s : String} (h : Plain s) (p : Path) : p.push s = p ++ [s] := by
  have hhead : s.toList.head? ≠ some '/' := fun hs => h.2.2 (List.mem_of_mem_head? hs)
  rw [push, if_neg hhead, components_plain h]

end Path

section Sample

/-- A digest that spells the first thirty-one bytes of what it names, and a tag. -/
def sampleDigest (bytes : List UInt8) (tag : UInt8) : Digest :=
  ⟨(bytes ++ List.replicate 31 0).take 31 ++ [tag], by simp [digestLen]⟩

/-- A hash to try things on: short contents that differ have digests that differ, and the tag keeps
the namespaces apart. -/
def sampleBlake3 : Blake3 where
  hash bytes := sampleDigest bytes 0
  deriveKey context bytes := sampleDigest (Utf8.encode context ++ bytes) 0
  keyedHash key bytes := sampleDigest bytes (key.bytes.getD 7 0)

end Sample

namespace Digest

theorem digit_ne {n : ℕ} (h : n < 16) : Hex.digit n ≠ ':' ∧ Hex.digit n ≠ '/' := by
  interval_cases n <;> decide

theorem hex_plain {bs : List UInt8} (h : bs ≠ []) : Path.Plain (String.ofList (Hex.encode bs)) := by
  have hlen := Hex.length_encode bs
  have hpos := List.length_pos_iff.2 h
  refine ⟨fun h0 => ?_, fun h1 => ?_, fun hs => ?_⟩
  · have h0 := congrArg (fun s => s.toList.length) h0
    rw [String.toList_ofList] at h0
    have h2 : "".toList.length = 0 := by decide
    omega
  · have h1 := congrArg (fun s => s.toList.length) h1
    rw [String.toList_ofList] at h1
    have h2 : ".".toList.length = 1 := by decide
    omega
  · rw [String.toList_ofList] at hs
    obtain ⟨n, hn, hc⟩ := Hex.mem_encode hs
    exact (digit_ne hn).2 hc.symm

theorem bytes_ne_nil (d : Digest) : d.bytes ≠ [] := fun h => by
  have := d.length_bytes
  simp [h, digestLen] at this

theorem toHex_plain (d : Digest) : Path.Plain d.toHex := hex_plain d.bytes_ne_nil

/-- What the table of `fanout` has for the two halves of a byte. -/
theorem fanoutChars_eq (d : Digest) : d.fanoutChars
    = (Hex.encode (d.bytes.take 1)).map fun c => UInt8.ofNat c.toNat := by
  obtain ⟨b, bs, hbytes⟩ := List.exists_cons_of_ne_nil d.bytes_ne_nil
  have hb : b.toNat < 256 := b.toNat_lt
  have hhex : ∀ n < 16, ("0123456789abcdef".toList.map fun c => UInt8.ofNat c.toNat).getD n 0
      = UInt8.ofNat (Hex.digit n).toNat := by
    decide
  have hhigh : (b >>> 4).toNat = b.toNat / 16 := by
    rw [UInt8.toNat_shiftRight, Nat.shiftRight_eq_div_pow]
    rfl
  have hlow : (b &&& 0x0f).toNat = b.toNat % 16 := by
    rw [UInt8.toNat_and]
    exact Nat.and_two_pow_sub_one_eq_mod _ 4
  simp only [fanoutChars, hbytes, List.getD_cons_zero, List.take_succ_cons, List.take_zero,
    Hex.encode, List.map_cons, List.map_nil, hhigh, hlow]
  rw [hhex _ (by omega), hhex _ (by omega)]

theorem fanout_eq (d : Digest) : d.fanout = String.ofList (Hex.encode (d.bytes.take 1)) := by
  have hdigit : ∀ n < 16, Char.ofNat (UInt8.ofNat (Hex.digit n).toNat).toNat = Hex.digit n := by
    decide
  rw [fanout, fanoutChars_eq, List.map_map]
  refine congrArg String.ofList ((List.map_congr_left fun c hc => ?_).trans (List.map_id _))
  obtain ⟨n, hn, rfl⟩ := Hex.mem_encode hc
  exact hdigit n hn

theorem fanout_plain (d : Digest) : Path.Plain d.fanout := by
  rw [fanout_eq]
  exact hex_plain (by simpa using d.bytes_ne_nil)

theorem toHex_inj {d d' : Digest} (h : d.toHex = d'.toHex) : d = d' :=
  ext_bytes (Hex.encode_inj (by simpa [toHex] using congrArg String.toList h))

theorem utf8ByteSize_hex (bs : List UInt8) :
    (String.ofList (Hex.encode bs)).utf8ByteSize = 2 * bs.length :=
  (Hex.spells_encode bs).utf8ByteSize

section Shards

variable {w : ℕ} (d : Digest)

theorem toNat_head : d.head.toNat = LittleEndian.ofLe (d.bytes.take 8) := by
  have hlt := LittleEndian.ofLe_lt (d.bytes.take 8)
  have hlen : (d.bytes.take 8).length = 8 := by
    rw [List.length_take, d.length_bytes]
    rfl
  rw [hlen] at hlt
  rw [head, BitVec.toNat_ofNat]
  exact Nat.mod_eq_of_lt hlt

/-- A mask keeps the remainder, also of what was truncated before. -/
theorem mask_eq_mod {x n : BitVec w} (hn : n.toNat.isPowerOfTwo) :
    (x &&& (n - 1)).toNat = x.toNat % n.toNat := by
  obtain ⟨k, hk⟩ := hn
  have hpos : 0 < 2 ^ k := Nat.two_pow_pos k
  have hw : 2 ^ k < 2 ^ w := hk ▸ n.isLt
  have hone : (1 : BitVec w).toNat = 1 := Nat.mod_eq_of_lt (show 1 < 2 ^ w by omega)
  have hle : 1 ≤ n := by
    rw [BitVec.le_def, hone, hk]
    exact hpos
  rw [BitVec.toNat_and, BitVec.toNat_sub_of_le hle, hone, hk, Nat.and_two_pow_sub_one_eq_mod]

theorem toNat_shard (hw : w ≤ 64) {n : BitVec w} (hn : 0 < n) : ∃ s, d.shard n = some s ∧
    s.toNat = LittleEndian.ofLe (d.bytes.take 8) % n.toNat := by
  have hzero : n ≠ 0 := by
    rintro rfl
    exact absurd hn (BitVec.lt_irrefl _)
  unfold shard
  rw [if_neg hzero, ← toNat_head]
  split_ifs with hpow
  · refine ⟨_, rfl, ?_⟩
    obtain ⟨k, hk⟩ := hpow
    have hlt : 2 ^ k < 2 ^ w := hk ▸ n.isLt
    have hdvd : 2 ^ k ∣ 2 ^ w :=
      Nat.pow_dvd_pow 2 (Nat.pow_lt_pow_iff_right (by decide) |>.1 hlt).le
    rw [mask_eq_mod ⟨k, hk⟩, BitVec.toNat_setWidth, hk, Nat.mod_mod_of_dvd _ hdvd]
  · refine ⟨_, rfl, ?_⟩
    have hmod : d.head.toNat % n.toNat < 2 ^ w :=
      (Nat.mod_lt _ hn).trans n.isLt
    rw [BitVec.toNat_setWidth, BitVec.toNat_umod, BitVec.toNat_setWidth_of_le hw,
      Nat.mod_eq_of_lt hmod]

/-- Nodes with the same number of shards send a digest to the same one, whatever their word size. -/
theorem shard_everywhere (hw : w ≤ 64) {w' : ℕ} (hw' : w' ≤ 64) {n : BitVec w} {n' : BitVec w'}
    (hn : 0 < n) (hsame : n'.toNat = n.toNat) : ∃ s s', d.shard n = some s ∧
      d.shard n' = some s' ∧ s.toNat = LittleEndian.ofLe (d.bytes.take 8) % n.toNat ∧
      s.toNat < n.toNat ∧ s'.toNat = s.toNat := by
  have hpos : 0 < n.toNat := hn
  have hn' : 0 < n'.toNat := by rwa [hsame]
  obtain ⟨s, hs, hmod⟩ := d.toNat_shard hw hn
  obtain ⟨s', hs', hmod'⟩ := d.toNat_shard hw' hn'
  refine ⟨s, s', hs, hs', hmod, ?_, ?_⟩
  · rw [hmod]
    exact Nat.mod_lt _ hpos
  · rw [hmod', hsame, hmod]

/-- Seven shards, for a node of 32 bits and one of 64. -/
theorem sample_sharded : ∃ s s', (sampleDigest [1, 2, 3] 0).shard (7 : BitVec 32) = some s ∧
    (sampleDigest [1, 2, 3] 0).shard (7 : BitVec 64) = some s' ∧
    s.toNat = LittleEndian.ofLe ((sampleDigest [1, 2, 3] 0).bytes.take 8)
      % (7 : BitVec 32).toNat ∧ s.toNat < (7 : BitVec 32).toNat ∧ s'.toNat = s.toNat :=
  shard_everywhere _ (by decide) (by decide) (by decide) (by decide)

end Shards

end Digest

namespace Hasher

/-- It makes no difference in how many pieces a hasher is fed. -/
theorem foldl_update (h : Hasher) (chunks : List (List UInt8)) :
    chunks.foldl update h = h.update chunks.flatten := by
  induction chunks generalizing h with
  | nil => simp [update]
  | cons chunk chunks ih =>
    rw [List.foldl_cons, ih]
    simp [update]

section Frames

def frame : List UInt8 → List UInt8 := Delimiting.prefixed (LittleEndian.toLe 8)

theorem foldl_updateFramed (h : Hasher) (fields : List (List UInt8)) :
    fields.foldl updateFramed h = h.update (fields.flatMap frame) := by
  induction fields generalizing h with
  | nil => simp [update]
  | cons field fields ih =>
    rw [List.foldl_cons, ih]
    simp [updateFramed, update, frame, Delimiting.prefixed]

theorem frame_ne_nil (field : List UInt8) : frame field ≠ [] := by
  have hlen := LittleEndian.length_toLe 8 field.length
  intro h
  rw [(List.append_eq_nil_iff.1 h).1] at hlen
  cases hlen

variable {fields fields' : List (List UInt8)}

/-- Where no length wraps, the boundaries between the fields can be found again. -/
theorem frames_inj (hshort : ∀ f ∈ fields, f.length < 2 ^ 64)
    (hshort' : ∀ f ∈ fields', f.length < 2 ^ 64)
    (hframes : fields.flatMap frame = fields'.flatMap frame) : fields = fields' := by
  have hpow : (2 : ℕ) ^ 64 = 256 ^ 8 := by norm_num
  refine (LittleEndian.toLe_delimits 8).prefixed.flatMap_inj frame_ne_nil (fun p hp => ?_) hframes
  obtain ⟨hp, hp'⟩ := List.of_mem_zip hp
  have hlt := hshort _ hp
  have hlt' := hshort' _ hp'
  rw [hpow] at hlt hlt'
  rw [Nat.div_eq_of_lt hlt, Nat.div_eq_of_lt hlt']

/-- What was fed in frames tells the fields, how many there were and where each of them ended. -/
theorem updateFramed_inj (h : Hasher) (hshort : ∀ f ∈ fields, f.length < 2 ^ 64)
    (hshort' : ∀ f ∈ fields', f.length < 2 ^ 64)
    (hfed : (fields.foldl updateFramed h).fed = (fields'.foldl updateFramed h).fed) :
    fields = fields' := by
  rw [foldl_updateFramed, foldl_updateFramed] at hfed
  exact frames_inj hshort hshort' (List.append_cancel_left hfed)

theorem sample_framed : ([[97, 98], [99]] : List (List UInt8)) = [[97] ++ [98], [99]] :=
  updateFramed_inj (Hasher.keyed sampleBlake3 Context.blob) (by decide) (by decide) rfl

/-- Different fields only have one digest if the keyed hash has a collision. -/
theorem framed_collision (b3 : Blake3) (h : Hasher) (hshort : ∀ f ∈ fields, f.length < 2 ^ 64)
    (hshort' : ∀ f ∈ fields', f.length < 2 ^ 64) (hne : fields ≠ fields')
    (hdigest : (fields.foldl updateFramed h).finalize b3
      = (fields'.foldl updateFramed h).finalize b3) :
    ∃ fed fed', fed ≠ fed' ∧ b3.keyedHash h.key fed = b3.keyedHash h.key fed' := by
  rw [foldl_updateFramed, foldl_updateFramed] at hdigest
  refine ⟨_, _, fun hfed => hne ?_, hdigest⟩
  exact frames_inj hshort hshort' (List.append_cancel_left hfed)

end Frames

end Hasher

end Jetrun
