import Jetrun.Proofs.Digest
import Jetrun.Store

/-!
# The names of an object

The bytes of a digest are spelled three times: by the directory, by the file name, and by whatever
text it is read from. A sweep deletes what it reads, so the three have to agree.
-/

namespace Jetrun

namespace Digest

/-- The text is the digits of the digest, of either case, behind at most one prefix. -/
def WrittenAs (d : Digest) (s : String) : Prop :=
  ∃ digits : List Char, (s = String.ofList digits ∨ s = digestPrefix ++ String.ofList digits) ∧
    digits.length = 2 * digestLen ∧ Hex.Spells digits d.bytes

/-- The text without its prefix. -/
def stripped (s : String) : List Char :=
  if digestPrefix.toList <+: s.toList then s.toList.drop 3 else s.toList

section Parsing

variable {s : String} {d : Digest} {digits : List Char}

/-- The prefix has a character that is no digit. -/
theorem not_prefix_of_spells (h : Hex.Spells digits d.bytes) : ¬digestPrefix.toList <+: digits := by
  intro hb3
  obtain ⟨n, hn⟩ := h.digit ':' (hb3.subset (by decide))
  cases hn

theorem stripped_digits (h : Hex.Spells digits d.bytes) :
    stripped (String.ofList digits) = digits := by
  rw [stripped, String.toList_ofList, if_neg (not_prefix_of_spells h)]

theorem stripped_prefixed (digits : List Char) :
    stripped (digestPrefix ++ String.ofList digits) = digits := by
  have hlen : digestPrefix.toList.length = 3 := by decide
  rw [stripped, String.toList_append, String.toList_ofList, if_pos (List.prefix_append _ _),
    ← hlen, List.drop_left]

theorem fromBytes_eq_some {bs : List UInt8} : fromBytes bs = some d ↔ bs = d.bytes := by
  unfold fromBytes
  split_ifs with hlen
  · constructor
    · rintro ⟨rfl⟩
      rfl
    · rintro rfl
      rfl
  · refine iff_of_false (by simp) ?_
    rintro rfl
    exact hlen d.length_bytes

/-- A text is read as the digest that it spells without its prefix. -/
theorem parse_stripped : parse s = .ok d ↔ Hex.Spells (stripped s) d.bytes := by
  have hread : ∀ d', (Hex.decode (stripped s)).bind fromBytes = some d'
      ↔ Hex.Spells (stripped s) d'.bytes := fun d' => by
    simp only [Option.bind_eq_some_iff, fromBytes_eq_some, exists_eq_right, Hex.decode_iff]
  generalize hcs : stripped s = cs at hread ⊢
  unfold stripped at hcs
  simp only [parse, hcs]
  rw [← hread]
  split_ifs with hlen
  · refine iff_of_false (by simp) fun h => hlen ?_
    rw [((hread d).1 h).utf8ByteSize, d.length_bytes, Nat.mul_comm]
  · rcases (Hex.decode cs).bind fromBytes with _ | d'
    · simp
    · simp

/-- What is read as a digest is what spells it, and nothing else. -/
theorem parse_iff : parse s = .ok d ↔ d.WrittenAs s := by
  rw [parse_stripped]
  constructor
  · intro h
    have hlen : (stripped s).length = 2 * digestLen := by rw [h.length, d.length_bytes]
    refine ⟨stripped s, ?_, hlen, h⟩
    unfold stripped
    split_ifs with hb3
    · obtain ⟨rest, hrest⟩ := hb3
      refine .inr (String.toList_inj.1 ?_)
      have hthree : digestPrefix.toList.length = 3 := by decide
      rw [String.toList_append, String.toList_ofList, ← hrest, ← hthree, List.drop_left]
    · exact .inl String.ofList_toList.symm
  · rintro ⟨digits, rfl | rfl, -, h⟩
    · rwa [stripped_digits h]
    · rwa [stripped_prefixed]

/-- An object's file name reads back as its digest. -/
theorem parse_toHex (d : Digest) : parse d.toHex = .ok d :=
  parse_iff.2 ⟨_, .inl rfl, by rw [Hex.length_encode, d.length_bytes], Hex.spells_encode _⟩

theorem parse_toPrefixed (d : Digest) : parse d.toPrefixed = .ok d :=
  parse_iff.2 ⟨_, .inr rfl, by rw [Hex.length_encode, d.length_bytes], Hex.spells_encode _⟩

/-- The one of its spellings that is written is the one in lower case. -/
theorem toHex_of_spells (h : Hex.Spells digits d.bytes) :
    d.toHex = String.ofList (digits.map Char.toLower) := congrArg String.ofList h.encode_eq

end Parsing

section Fanout

/-- The two chars are text, so that taking them for it cannot fail. -/
theorem decode_fanoutChars (d : Digest) : Utf8.decode d.fanoutChars = some d.fanout := by
  have hascii : ∀ c ∈ Hex.encode (d.bytes.take 1), c.toNat ≤ 127 := fun c hc => by
    obtain ⟨n, hn⟩ := (Hex.spells_encode _).digit c hc
    exact Hex.ascii_of_value hn
  rw [fanoutChars_eq, ← Utf8.encode_ascii hascii, ← fanout_eq, Utf8.decode_encode]

/-- The directory is the first two characters of the file name. -/
theorem fanout_eq_take (d : Digest) : d.fanout = String.ofList (d.toHex.toList.take 2) := by
  rw [fanout_eq, toHex, String.toList_ofList]
  obtain ⟨b, bs, hbytes⟩ := List.exists_cons_of_ne_nil d.bytes_ne_nil
  rw [hbytes]
  rfl

end Fanout

end Digest

theorem toOption_eq_some {ε α : Type} {r : Except ε α} {a : α} :
    r.toOption = some a ↔ r = .ok a := by
  rcases r with e | b
  · simp [Except.toOption]
  · simp [Except.toOption]

namespace ObjectStore

variable (st : ObjectStore)

theorem objectPath_eq (d : Digest) : st.objectPath d = st.objects ++ [d.fanout] ++ [d.toHex] := by
  rw [objectPath, Path.push_plain d.fanout_plain, Path.push_plain d.toHex_plain]

theorem fileName_objectPath (d : Digest) : (st.objectPath d).fileName = some d.toHex := by
  have hdots : d.toHex ≠ ".." := fun h => by
    have hlen := Digest.utf8ByteSize_hex d.bytes
    rw [d.length_bytes, show String.ofList (Hex.encode d.bytes) = d.toHex from rfl, h] at hlen
    exact absurd hlen (by decide)
  have hsep : d.toHex ≠ "/" := fun h => d.toHex_plain.2.2 (by rw [h]; decide)
  rw [Path.fileName, objectPath_eq, List.getLast?_concat]
  simp [Option.filter, hdots, hsep]

/-- A sweep takes a file for the object that its name spells, whatever directory it is in. -/
theorem fileDigest_iff {p : Path} {d : Digest} :
    fileDigest p = some d ↔ ∃ name, p.fileName = some name ∧ d.WrittenAs name := by
  simp only [fileDigest, Option.bind_eq_some_iff, toOption_eq_some, Digest.parse_iff]

theorem fileDigest_objectPath (d : Digest) : fileDigest (st.objectPath d) = some d :=
  fileDigest_iff.2 ⟨_, st.fileName_objectPath d, Digest.parse_iff.1 d.parse_toHex⟩

theorem objectPath_inj {d d' : Digest} (h : st.objectPath d = st.objectPath d') : d = d' := by
  have := congrArg fileDigest h
  rwa [fileDigest_objectPath, fileDigest_objectPath, Option.some.injEq] at this

/-- The directory, the file and the parser agree on every digest, and the parser on every text. -/
theorem names_round_trip :
    (∀ s d, Digest.parse s = .ok d ↔ d.WrittenAs s) ∧
      (∀ (d : Digest) digits, Hex.Spells digits d.bytes →
        d.toHex = String.ofList (digits.map Char.toLower)) ∧
      (∀ d, Digest.parse d.toHex = .ok d ∧ Digest.parse d.toPrefixed = .ok d) ∧
      ∀ st : ObjectStore, Function.Injective st.objectPath ∧ ∀ d, ∃ name : String,
        (st.objectPath d).fileName = some name ∧
        st.objectPath d = st.objects ++ [String.ofList (name.toList.take 2)] ++ [name] ∧
        fileDigest (st.objectPath d) = some d := by
  refine ⟨fun _ _ => Digest.parse_iff, fun _ _ => Digest.toHex_of_spells,
    fun d => ⟨d.parse_toHex, d.parse_toPrefixed⟩, fun st => ⟨fun _ _ => st.objectPath_inj, ?_⟩⟩
  intro d
  refine ⟨d.toHex, st.fileName_objectPath d, ?_, st.fileDigest_objectPath d⟩
  rw [← d.fanout_eq_take]
  exact st.objectPath_eq d

end ObjectStore

end Jetrun
