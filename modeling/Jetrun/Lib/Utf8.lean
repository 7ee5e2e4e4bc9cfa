import Mathlib.Data.List.Basic
import Mathlib.Data.Option.Basic

/-!
# Text as bytes

The UTF-8 bytes of a string as a list, and the partial way back.
-/

namespace Utf8

def encode (s : String) : List UInt8 := s.toUTF8.data.toList

/-- The string some bytes spell, if they are valid UTF-8. -/
def decode (bs : List UInt8) : Option String := String.fromUTF8? ⟨bs.toArray⟩

theorem decode_encode (s : String) : decode (encode s) = some s := by
  have hv : s.toUTF8.IsValidUTF8 := s.isValidUTF8
  have he : (⟨(encode s).toArray⟩ : ByteArray) = s.toUTF8 := by simp [encode]
  rw [decode, he, String.fromUTF8?, dif_pos hv]
  rfl

theorem encode_of_decode {bs : List UInt8} {s : String} (h : decode bs = some s) :
    encode s = bs := by
  unfold decode String.fromUTF8? at h
  split_ifs at h with hv
  rw [← Option.some.inj h]
  rfl

theorem encode_inj {s t : String} (h : encode s = encode t) : s = t := by
  have := congrArg decode h
  rwa [decode_encode, decode_encode, Option.some.injEq] at this

theorem encode_append (s t : String) : encode (s ++ t) = encode s ++ encode t := by
  simp [encode, String.toByteArray_append, ByteArray.data_append]

theorem encode_replicate (n : ℕ) (c : Char) : encode (String.ofList (List.replicate n c))
    = (List.replicate n (encode (String.ofList [c]))).flatten := by
  induction n with
  | zero => rfl
  | succ n ih =>
    rw [List.replicate_succ, List.replicate_succ, List.flatten_cons, ← ih, ← encode_append,
      ← String.ofList_append]
    rfl

/-- A character of ASCII is the one byte that it is worth. -/
theorem encode_ascii : ∀ {cs : List Char}, (∀ c ∈ cs, c.toNat ≤ 127) →
    encode (String.ofList cs) = cs.map fun c => UInt8.ofNat c.toNat
  | [], _ => rfl
  | c :: cs, h => by
    have hcs := encode_ascii fun c' hc' => h c' (List.mem_cons_of_mem _ hc')
    have hsize : c.utf8Size = 1 := Char.utf8Size_eq_one_iff.2 (h c List.mem_cons_self)
    have hc : encode (String.singleton c) = [UInt8.ofNat c.toNat] := by
      have hbytes : (String.singleton c).toUTF8 = [c.val.toUInt8].toByteArray := by
        rw [← String.utf8EncodeChar_eq_singleton hsize, ← List.utf8Encode_singleton,
          ← String.toByteArray_ofList]
        rfl
      rw [encode, hbytes]
      rfl
    rw [String.ofList_cons, encode_append, hcs, hc]
    rfl

theorem length_encode (s : String) : (encode s).length = s.utf8ByteSize := rfl

end Utf8
