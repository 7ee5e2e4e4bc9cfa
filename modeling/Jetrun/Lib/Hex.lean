import Mathlib.Data.List.Basic
import Mathlib.Tactic.IntervalCases

/-!
# Hexadecimal text

Two digits a byte, the high half first. Writing is in lower case; reading takes either case and
refuses an odd number of digits.
-/

namespace Hex

def digit (n : ℕ) : Char :=
  if n < 10 then Char.ofNat (48 + n) else Char.ofNat (87 + n)

/-- What a digit is worth, `none` for any other character. -/
def value (c : Char) : Option ℕ :=
  if 48 ≤ c.toNat ∧ c.toNat ≤ 57 then some (c.toNat - 48)
  else if 97 ≤ c.toNat ∧ c.toNat ≤ 102 then some (c.toNat - 87)
  else if 65 ≤ c.toNat ∧ c.toNat ≤ 70 then some (c.toNat - 55)
  else none

def encode : List UInt8 → List Char
  | [] => []
  | b :: bs => digit (b.toNat / 16) :: digit (b.toNat % 16) :: encode bs

def decode : List Char → Option (List UInt8)
  | [] => some []
  | [_] => none
  | hi :: lo :: cs => do
    let h ← value hi
    let l ← value lo
    let bs ← decode cs
    pure (UInt8.ofNat (16 * h + l) :: bs)

theorem value_digit {n : ℕ} (h : n < 16) : value (digit n) = some n := by
  interval_cases n <;> rfl

theorem length_encode : ∀ bs : List UInt8, (encode bs).length = 2 * bs.length
  | [] => rfl
  | _ :: bs => by
    simp only [encode, List.length_cons, length_encode bs]
    omega

theorem mem_encode : ∀ {bs : List UInt8} {c : Char}, c ∈ encode bs → ∃ n < 16, c = digit n
  | b :: bs, c, h => by
    have hb : b.toNat < 256 := b.toNat_lt
    rcases List.mem_cons.1 h with rfl | h
    · exact ⟨_, by omega, rfl⟩
    rcases List.mem_cons.1 h with rfl | h
    · exact ⟨_, by omega, rfl⟩
    · exact mem_encode h

theorem decode_encode : ∀ bs : List UInt8, decode (encode bs) = some bs
  | [] => rfl
  | b :: bs => by
    have hb : b.toNat < 256 := b.toNat_lt
    have hsum : 16 * (b.toNat / 16) + b.toNat % 16 = b.toNat := by omega
    simp only [encode, decode, value_digit (show b.toNat / 16 < 16 by omega),
      value_digit (show b.toNat % 16 < 16 by omega), decode_encode bs, Option.bind_eq_bind,
      Option.bind_some, hsum, UInt8.ofNat_toNat, Option.pure_def]

theorem encode_inj {bs bs' : List UInt8} (h : encode bs = encode bs') : bs = bs' := by
  simpa [decode_encode] using congrArg decode h

section Spelling

/-- What the two halves of each byte are worth, the high one first. -/
def halves : List UInt8 → List ℕ
  | [] => []
  | b :: bs => b.toNat / 16 :: b.toNat % 16 :: halves bs

/-- The characters are digits of either case, two for each byte. -/
def Spells (cs : List Char) (bs : List UInt8) : Prop := cs.map value = (halves bs).map some

theorem length_halves : ∀ bs : List UInt8, (halves bs).length = 2 * bs.length
  | [] => rfl
  | _ :: bs => by
    simp only [halves, List.length_cons, length_halves bs]
    omega

theorem Spells.length {cs : List Char} {bs : List UInt8} (h : Spells cs bs) :
    cs.length = 2 * bs.length := by
  have hlen := congrArg List.length h
  rwa [List.length_map, List.length_map, length_halves] at hlen

theorem value_lt {c : Char} {n : ℕ} (h : value c = some n) : n < 16 := by
  unfold value at h
  split_ifs at h
  all_goals
    cases h
    omega

theorem ascii_of_value {c : Char} {n : ℕ} (h : value c = some n) : c.toNat ≤ 127 := by
  unfold value at h
  split_ifs at h
  all_goals omega

/-- A digit is one byte of text. -/
theorem utf8Size_of_value {c : Char} {n : ℕ} (h : value c = some n) : c.utf8Size = 1 :=
  Char.utf8Size_eq_one_iff.2 (ascii_of_value h)

/-- Writing a digit that was read puts it in lower case. -/
theorem digit_of_value {c : Char} {n : ℕ} (h : value c = some n) : digit n = c.toLower := by
  have hall : ∀ k < 128, ∀ m ∈ value (Char.ofNat k), digit m = (Char.ofNat k).toLower := by
    decide
  have hc := hall c.toNat (Nat.lt_succ_of_le (ascii_of_value h)) n
  rw [Char.ofNat_toNat] at hc
  exact hc h

theorem Spells.digit {cs : List Char} {bs : List UInt8} (h : Spells cs bs) :
    ∀ c ∈ cs, ∃ n, value c = some n := by
  intro c hc
  have hmem : value c ∈ (halves bs).map some := h ▸ List.mem_map_of_mem hc
  obtain ⟨n, -, hn⟩ := List.mem_map.1 hmem
  exact ⟨n, hn.symm⟩

theorem utf8ByteSize_digits : ∀ {cs : List Char}, (∀ c ∈ cs, ∃ n, value c = some n) →
    (String.ofList cs).utf8ByteSize = cs.length
  | [], _ => rfl
  | c :: cs, h => by
    obtain ⟨n, hn⟩ := h c List.mem_cons_self
    have hcs := utf8ByteSize_digits fun c' hc' => h c' (List.mem_cons_of_mem _ hc')
    rw [String.ofList_cons, String.utf8ByteSize_append, hcs, String.utf8ByteSize_singleton,
      utf8Size_of_value hn, List.length_cons, Nat.add_comm]

theorem Spells.utf8ByteSize {cs : List Char} {bs : List UInt8} (h : Spells cs bs) :
    (String.ofList cs).utf8ByteSize = 2 * bs.length :=
  (utf8ByteSize_digits h.digit).trans h.length

theorem spells_encode : ∀ bs : List UInt8, Spells (encode bs) bs
  | [] => rfl
  | b :: bs => by
    have hb : b.toNat < 256 := b.toNat_lt
    have hbs : (encode bs).map value = (halves bs).map some := spells_encode bs
    simp only [Spells, encode, halves, List.map_cons, hbs,
      value_digit (show b.toNat / 16 < 16 by omega), value_digit (show b.toNat % 16 < 16 by omega)]

/-- Of all spellings of some bytes, the one in lower case is written. -/
theorem Spells.encode_eq : ∀ {cs : List Char} {bs : List UInt8}, Spells cs bs →
    encode bs = cs.map Char.toLower
  | cs, [], h => by
    obtain rfl := List.map_eq_nil_iff.1 h
    rfl
  | [], _ :: _, h => by cases h
  | [_], _ :: _, h => by cases h.length
  | hi :: lo :: cs, b :: bs, h => by
    simp only [Spells, halves, List.map_cons, List.cons.injEq] at h
    obtain ⟨hh, hl, hbs⟩ := h
    rw [encode, digit_of_value hh, digit_of_value hl, Spells.encode_eq hbs]
    rfl

/-- Reading accepts all spellings of some bytes, and nothing else. -/
theorem decode_iff : ∀ {cs : List Char} {bs : List UInt8}, decode cs = some bs ↔ Spells cs bs
  | [], [] => iff_of_true rfl rfl
  | [], _ :: _ => iff_of_false nofun nofun
  | [_], [] => iff_of_false nofun nofun
  | [_], _ :: _ => iff_of_false nofun fun h => by cases h.length
  | hi :: lo :: cs, [] => by
    refine iff_of_false (fun h => ?_) nofun
    simp [decode, Option.bind_eq_some_iff] at h
  | hi :: lo :: cs, b :: bs => by
    have hb : b.toNat < 256 := b.toNat_lt
    simp only [decode, Option.bind_eq_bind, Option.bind_eq_some_iff, Option.pure_def,
      Option.some.injEq, List.cons.injEq, Spells, halves, List.map_cons]
    constructor
    · rintro ⟨h, hh, l, hl, bs', hbs, rfl, rfl⟩
      have hhlt := value_lt hh
      have hllt := value_lt hl
      have hbyte : (UInt8.ofNat (16 * h + l)).toNat = 16 * h + l := by
        rw [UInt8.toNat_ofNat']
        omega
      refine ⟨hh.trans (congrArg some ?_), hl.trans (congrArg some ?_), decode_iff.1 hbs⟩
      · omega
      · omega
    · rintro ⟨hh, hl, hbs⟩
      refine ⟨_, hh, _, hl, bs, decode_iff.2 hbs, ?_, rfl⟩
      rw [show 16 * (b.toNat / 16) + b.toNat % 16 = b.toNat by omega, UInt8.ofNat_toNat]

end Spelling

end Hex
