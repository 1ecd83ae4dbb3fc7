import Mathlib.Algebra.GroupWithZero.Nat
import Mathlib.Data.Int.Notation
import Mathlib.Data.List.Basic
import Mathlib.Tactic.Common

/-!
# Little-endian numbers

Numbers as byte strings, the lowest byte first. `toBytes w` writes the lowest `w` bytes and
`ofBytes` reads any number of them; they are inverse to each other (`toBytes_ofBytes`,
`ofBytes_toBytes`).

Programs put numbers together with `<<` and `|`. `word_eq`, `half_eq` and `shift_or` are
what comes out. They take them apart with `>>` and `& 0xff` (`ofInt_shiftRight_and`).
-/

namespace AudioProc.LittleEndian

/-- The number a byte string stands for, the first byte at the bottom. -/
def ofBytes : List UInt8 → ℕ
  | [] => 0
  | b :: bs => b.toNat + 256 * ofBytes bs

/-- The lowest `w` bytes of a number. -/
def toBytes : ℕ → ℕ → List UInt8
  | 0, _ => []
  | w + 1, n => UInt8.ofNat n :: toBytes w (n / 256)

@[simp] theorem length_toBytes (w n : ℕ) : (toBytes w n).length = w := by
  induction w generalizing n with
  | zero => rfl
  | succ w ih => simp [toBytes, ih]

theorem toBytes_ofBytes (bs : List UInt8) : toBytes bs.length (ofBytes bs) = bs := by
  induction bs with
  | nil => rfl
  | cons b bs ih =>
      have hb := b.toNat_lt
      have hdiv : (b.toNat + 256 * ofBytes bs) / 256 = ofBytes bs := by omega
      have hhead : UInt8.ofNat (b.toNat + 256 * ofBytes bs) = b := by
        apply UInt8.toNat.inj
        rw [UInt8.toNat_ofNat']
        omega
      rw [List.length_cons, ofBytes, toBytes, hdiv, ih, hhead]

theorem ofBytes_lt (bs : List UInt8) : ofBytes bs < 256 ^ bs.length := by
  induction bs with
  | nil => simp [ofBytes]
  | cons b bs ih =>
      have hb := b.toNat_lt
      rw [ofBytes, List.length_cons, Nat.pow_succ]
      omega

theorem ofBytes_toBytes (w n : ℕ) (h : n < 256 ^ w) : ofBytes (toBytes w n) = n := by
  induction w generalizing n with
  | zero =>
      simp at h
      simp [toBytes, ofBytes, h]
  | succ w ih =>
      rw [Nat.pow_succ] at h
      rw [toBytes, ofBytes, ih (n / 256) (by omega), UInt8.toNat_ofNat']
      omega

/-- The higher bytes are left out. -/
theorem toBytes_mod (w n : ℕ) : toBytes w (n % 256 ^ w) = toBytes w n := by
  induction w generalizing n with
  | zero => rfl
  | succ w ih =>
      have hdiv : n % 256 ^ (w + 1) / 256 = n / 256 % 256 ^ w := by
        rw [Nat.pow_succ, Nat.mul_comm, Nat.mod_mul_right_div_self]
      have hhead : UInt8.ofNat (n % 256 ^ (w + 1)) = UInt8.ofNat n := by
        apply UInt8.toNat.inj
        rw [UInt8.toNat_ofNat', UInt8.toNat_ofNat', Nat.pow_succ, Nat.mul_comm]
        exact Nat.mod_mul_right_mod n 256 (256 ^ w)
      rw [toBytes, toBytes, hdiv, hhead, ih]

/-! ## Bytes put together by shifts -/

/-- `|` adds a number to one whose low bits are free. -/
theorem or_shiftLeft {k a b : ℕ} (h : a < 2 ^ k) : a ||| b <<< k = a + b * 2 ^ k := by
  rw [Nat.or_comm, ← Nat.shiftLeft_add_eq_or_of_lt h, Nat.shiftLeft_eq]
  omega

theorem toNat_ofInt_byte (b : UInt8) : (UInt32.ofInt b.toNat).toNat = b.toNat := by
  have hb := b.toNat_lt
  rw [UInt32.ofInt, UInt32.toNat_ofNat']
  omega

theorem toNat_ofInt_byte₁₆ (b : UInt8) : (UInt16.ofInt b.toNat).toNat = b.toNat := by
  have hb := b.toNat_lt
  rw [UInt16.ofInt, UInt16.toNat_ofNat']
  omega

/-- A byte shifted within a word loses nothing. -/
theorem shiftLeft_byte {n k w : ℕ} (hn : n < 2 ^ 8) (hk : k + 8 ≤ w) :
    n <<< k % 2 ^ w = n <<< k := by
  apply Nat.mod_eq_of_lt
  rw [Nat.shiftLeft_eq]
  calc n * 2 ^ k < 2 ^ 8 * 2 ^ k := Nat.mul_lt_mul_of_pos_right hn (Nat.two_pow_pos k)
    _ = 2 ^ (8 + k) := (Nat.pow_add 2 8 k).symm
    _ ≤ 2 ^ w := Nat.pow_le_pow_right (by decide) (by omega)

/-- Four bytes, each shifted to its place. -/
theorem word_eq (b₀ b₁ b₂ b₃ : UInt8) :
    (UInt32.ofInt b₀.toNat ||| (UInt32.ofInt b₁.toNat <<< 8) |||
      (UInt32.ofInt b₂.toNat <<< 16) ||| (UInt32.ofInt b₃.toNat <<< 24)).toNat =
      ofBytes [b₀, b₁, b₂, b₃] := by
  have h₀ := b₀.toNat_lt
  have h₁ := b₁.toNat_lt
  have h₂ := b₂.toNat_lt
  have h₃ := b₃.toNat_lt
  have h₀₁ : b₀.toNat + b₁.toNat * 2 ^ 8 < 2 ^ 16 := by omega
  have h₀₁₂ : b₀.toNat + b₁.toNat * 2 ^ 8 + b₂.toNat * 2 ^ 16 < 2 ^ 24 := by omega
  simp only [UInt32.toNat_or, UInt32.toNat_shiftLeft, toNat_ofInt_byte, UInt32.reduceToNat]
  show b₀.toNat ||| b₁.toNat <<< 8 % 2 ^ 32 ||| b₂.toNat <<< 16 % 2 ^ 32 |||
    b₃.toNat <<< 24 % 2 ^ 32 = _
  rw [shiftLeft_byte h₁ (by decide), shiftLeft_byte h₂ (by decide), shiftLeft_byte h₃ (by decide),
    or_shiftLeft h₀, or_shiftLeft h₀₁, or_shiftLeft h₀₁₂]
  simp only [ofBytes]
  omega

theorem half_eq (b₀ b₁ : UInt8) :
    (UInt16.ofInt b₀.toNat ||| (UInt16.ofInt b₁.toNat <<< 8)).toNat = ofBytes [b₀, b₁] := by
  have h₀ := b₀.toNat_lt
  have h₁ := b₁.toNat_lt
  simp only [UInt16.toNat_or, UInt16.toNat_shiftLeft, toNat_ofInt_byte₁₆, UInt16.reduceToNat]
  show b₀.toNat ||| b₁.toNat <<< 8 % 2 ^ 16 = _
  rw [shiftLeft_byte h₁ (by decide), or_shiftLeft h₀]
  simp only [ofBytes]
  omega

/-- One more byte at the bottom. -/
theorem shift_or (t : UInt32) (b : UInt8) :
    ((t <<< 8) ||| UInt32.ofInt b.toNat).toNat = (t.toNat * 256 + b.toNat) % 2 ^ 32 := by
  have hb := b.toNat_lt
  have ht := t.toNat_lt
  simp only [UInt32.toNat_or, UInt32.toNat_shiftLeft, toNat_ofInt_byte, UInt32.reduceToNat]
  simp only [Nat.reduceMod]
  have hmod : t.toNat <<< 8 % 2 ^ 32 = (t.toNat % 2 ^ 24) <<< 8 := by
    simp only [Nat.shiftLeft_eq]
    omega
  rw [hmod, Nat.or_comm, or_shiftLeft (by omega)]
  omega

/-! ## Bytes taken out by shifts -/

/-- The lowest byte of a word that is shifted down, with its sign or not. -/
theorem toNat_sshiftRight_and (x : BitVec 32) {n : ℕ} (hn : n + 8 ≤ 32) :
    ((x.sshiftRight n) &&& 0xff#32).toNat = x.toNat / 2 ^ n % 2 ^ 8 := by
  have hunsigned : (x.sshiftRight n) &&& 0xff#32 = (x >>> n) &&& 0xff#32 := by
    apply BitVec.eq_of_getLsbD_eq
    intro i hi
    rw [BitVec.getLsbD_and, BitVec.getLsbD_and, BitVec.getLsbD_sshiftRight,
      BitVec.getLsbD_ushiftRight]
    by_cases hlow : i < 8
    · -- the sign only comes in above
      have hinside : n + i < 32 := by omega
      rw [if_pos hinside, decide_eq_false (Nat.not_le.mpr hi), Bool.not_false, Bool.true_and]
    · have hhigh : (0xff#32).getLsbD i = false := by
        rw [BitVec.getLsbD_ofNat, Nat.testBit_lt_two_pow, Bool.and_false]
        calc 0xff < 2 ^ 8 := by decide
          _ ≤ 2 ^ i := Nat.pow_le_pow_right (by decide) (Nat.not_lt.mp hlow)
      rw [hhigh, Bool.and_false, Bool.and_false]
  rw [hunsigned, BitVec.toNat_and, BitVec.toNat_ushiftRight, Nat.shiftRight_eq_div_pow]
  exact Nat.and_two_pow_sub_one_eq_mod _ 8

/-- A byte taken out of an `int` and written as a character. -/
theorem ofInt_shiftRight_and (v k : Int32) {n : ℕ} (hk : (k.toBitVec.smod 32).toNat = n)
    (hn : n + 8 ≤ 32) :
    UInt8.ofInt ((v >>> k) &&& 0xff).toInt = UInt8.ofNat (v.toUInt32.toNat / 2 ^ n) := by
  have hbits : ((v >>> k) &&& 0xff).toBitVec = (v.toBitVec.sshiftRight n) &&& 0xff#32 := by
    rw [← hk]
    rfl
  have hnat := toNat_sshiftRight_and v.toBitVec hn
  have hint : ((v >>> k) &&& 0xff).toInt = ((v.toUInt32.toNat / 2 ^ n % 2 ^ 8 : ℕ) : ℤ) := by
    show ((v >>> k) &&& 0xff).toBitVec.toInt = _
    rw [hbits, BitVec.toInt_eq_toNat_of_lt, hnat]
    · rfl
    · rw [hnat]
      omega
  apply UInt8.toNat.inj
  rw [hint, UInt8.ofInt, UInt8.toNat_ofNat', UInt8.toNat_ofNat']
  omega

end AudioProc.LittleEndian
