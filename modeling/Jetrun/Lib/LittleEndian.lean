import Jetrun.Lib.Delimiting
import Mathlib.Data.Nat.Basic
import Mathlib.Tactic.Ring
import Mathlib.Tactic.Linarith

/-!
# Little-endian bytes

`toLe k n` is the `k` low bytes of `n`, lowest first, and `ofLe` reads any list of bytes back. A
number that fits survives the round trip (`ofLe_toLe`), and so does every list of bytes
(`toLe_ofLe`).
-/

namespace LittleEndian

/-- The `k` low bytes of `n`, lowest first. -/
def toLe : ℕ → ℕ → List UInt8
  | 0, _ => []
  | k + 1, n => UInt8.ofNat (n % 256) :: toLe k (n / 256)

/-- The number a list of bytes, lowest first, stands for. -/
def ofLe : List UInt8 → ℕ
  | [] => 0
  | b :: bs => b.toNat + 256 * ofLe bs

@[simp] theorem length_toLe : ∀ k n, (toLe k n).length = k
  | 0, _ => rfl
  | k + 1, n => by simp [toLe, length_toLe k]

theorem ofLe_lt : ∀ bs : List UInt8, ofLe bs < 256 ^ bs.length
  | [] => by simp [ofLe]
  | b :: bs => by
    have ih := ofLe_lt bs
    have hb : b.toNat < 256 := b.toNat_lt
    simp only [ofLe, List.length_cons, pow_succ]
    omega

theorem ofLe_toLe : ∀ {k n : ℕ}, n < 256 ^ k → ofLe (toLe k n) = n
  | 0, n, h => by simp [toLe, ofLe] at h ⊢; omega
  | k + 1, n, h => by
    have hq : n / 256 < 256 ^ k := by
      rw [pow_succ] at h
      exact Nat.div_lt_of_lt_mul (by omega)
    have hb : (UInt8.ofNat (n % 256)).toNat = n % 256 := by
      simp [UInt8.toNat_ofNat']
    simp only [toLe, ofLe, hb, ofLe_toLe hq]
    omega

/-- What does not fit is dropped. -/
theorem ofLe_toLe_mod (k n : ℕ) : ofLe (toLe k n) = n % 256 ^ k := by
  induction k generalizing n with
  | zero => simp [toLe, ofLe, Nat.mod_one]
  | succ k ih =>
    have hb : (UInt8.ofNat (n % 256)).toNat = n % 256 := by simp
    rw [toLe, ofLe, ih, hb, pow_succ, Nat.mul_comm (256 ^ k), Nat.mod_mul]

theorem toLe_ofLe : ∀ bs : List UInt8, toLe bs.length (ofLe bs) = bs
  | [] => rfl
  | b :: bs => by
    have hb : b.toNat < 256 := b.toNat_lt
    have hm : (b.toNat + 256 * ofLe bs) % 256 = b.toNat := by omega
    have hd : (b.toNat + 256 * ofLe bs) / 256 = ofLe bs := by omega
    simp only [List.length_cons, toLe, ofLe, hm, hd, toLe_ofLe bs, UInt8.ofNat_toNat]

theorem toLe_inj {k m n : ℕ} (hm : m < 256 ^ k) (hn : n < 256 ^ k) (h : toLe k m = toLe k n) :
    m = n := by
  rw [← ofLe_toLe hm, ← ofLe_toLe hn, h]

/-- Numbers with the same low bytes, of which the same was dropped, are the same. -/
theorem toLe_inj_of_div {k m n : ℕ} (hover : m / 256 ^ k = n / 256 ^ k)
    (h : toLe k m = toLe k n) : m = n := by
  have hlow := congrArg ofLe h
  rw [ofLe_toLe_mod, ofLe_toLe_mod] at hlow
  rw [← Nat.div_add_mod m (256 ^ k), ← Nat.div_add_mod n (256 ^ k), hlow, hover]

theorem toLe_delimits (k : ℕ) :
    Delimiting.Delimits (fun m n => m / 256 ^ k = n / 256 ^ k) (toLe k) :=
  Delimiting.delimits_of_length (length_toLe k) fun _ _ => toLe_inj_of_div

end LittleEndian
