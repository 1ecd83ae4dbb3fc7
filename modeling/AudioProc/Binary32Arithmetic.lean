import AudioProc.Binary32
import AudioProc.FloatOps
import AudioProc.FloatPacking
import AudioProc.Rounding

/-!
# The arithmetic of binary32 values

What `+`, `*`, `<` and the conversion to an integer do with `Float32` values, in terms of the
rational numbers that they are (`value`).

* `Rounds a x`: `x` is a nearest binary32 number to `a`, or the infinity of its sign if that is
  beyond the range;
* `rounds_mul`, `rounds_add`: products and sums of numbers;
* `lt_iff_value`, `truncate_eq`: comparison and conversion are exact;
* `value_mul_none` and the like: what is no number does not become one again.
-/

namespace AudioProc.Binary32

open Float.Model FloatRounding

/-- The number that `x` is, unless it is an infinity or NaN. -/
def value (x : Float32) : Option ℚ := FloatRounding.value x.toModel.unpack

/-- The multiples of powers of two, from `2 ^ (-149)` on, with 24 bits. -/
abbrev points : Set ℚ := numbers .binary32

/-- What rounding makes of the number `a`. -/
def Rounds (a : ℚ) (x : Float32) : Prop :=
  ∃ c, Nearest points a c ∧ (|c| < 2 ^ 128 ∧ value x = some c ∨
    2 ^ 128 ≤ c ∧ x.toModel.unpack = .infinity .positive ∨
    c ≤ -2 ^ 128 ∧ x.toModel.unpack = .infinity .negative)

section

variable {x y : Float32} {a b c : ℚ}

theorem exponentBias_pos : 0 < Format.binary32.exponentBias := by decide

theorem canonical (x : Float32) : Canonical .binary32 x.toModel.unpack :=
  (unpack_spec exponentBias_pos _).1

theorem abs_value_lt (h : value x = some a) : |a| < 2 ^ 128 :=
  (unpack_spec exponentBias_pos _).2 a h

theorem value_mem_points (h : value x = some a) : a ∈ points :=
  value_mem_numbers (canonical x) h

/-- What packing makes of a canonical result that is nearest to `a`. -/
theorem rounds_pack {f : UnpackedFloat} {c : ℚ} (hf : Canonical .binary32 f)
    (hc : FloatRounding.value f = some c) (hnear : Nearest points a c) :
    Rounds a (.ofModel (.pack f)) := by
  refine ⟨c, hnear, ?_⟩
  rcases unpack_pack exponentBias_pos hf hc with ⟨hsmall, hback⟩ | hover
  · exact Or.inl ⟨hsmall, (congrArg FloatRounding.value hback).trans hc⟩
  · exact Or.inr hover

theorem rounds_mul (ha : value x = some a) (hb : value y = some b) : Rounds (a * b) (x * y) := by
  rcases mul_spec (canonical x) (canonical y) ha hb with ⟨hcanonical, c, hc, hnear⟩
  exact rounds_pack hcanonical hc hnear

theorem rounds_add (ha : value x = some a) (hb : value y = some b) : Rounds (a + b) (x + y) := by
  rcases add_spec (canonical x) (canonical y) ha hb with ⟨hcanonical, c, hc, hnear⟩
  exact rounds_pack hcanonical hc hnear

/-- Between two points below the limit there is no overflow. -/
theorem Rounds.between {l u : ℚ} (h : Rounds a x) (hl : l ∈ points) (hu : u ∈ points)
    (hla : l ≤ a) (hau : a ≤ u) (hlow : -2 ^ 128 < l) (hhigh : u < 2 ^ 128) :
    ∃ c, value x = some c ∧ Nearest points a c ∧ l ≤ c ∧ c ≤ u := by
  rcases h with ⟨c, hnear, hcase⟩
  have hlc := hnear.ge hl hla
  have hcu := hnear.le hu hau
  rcases hcase with ⟨-, hc⟩ | ⟨hover, -⟩ | ⟨hover, -⟩
  · exact ⟨c, hc, hnear, hlc, hcu⟩
  · linarith
  · linarith

/-- A point is not rounded. -/
theorem Rounds.exact (h : Rounds a x) (ha : a ∈ points) (hsmall : |a| < 2 ^ 128) :
    value x = some a := by
  rcases abs_lt.mp hsmall with ⟨hlow, hhigh⟩
  rcases h.between ha ha le_rfl le_rfl hlow hhigh with ⟨c, hc, hnear, -, -⟩
  rwa [hnear.eq ha] at hc

/-! ## Comparison -/

/-- A larger exponent makes a canonical number larger. -/
theorem finite_lt {s s' : UnpackedFloat.Sign} {m m' : ℕ} {e e' : ℤ} {hm : 0 < m} {hm' : 0 < m'}
    (hf : Canonical .binary32 (.finite s m e hm)) (hg : Canonical .binary32 (.finite s' m' e' hm'))
    (h : e < e') : (m : ℚ) * 2 ^ e < m' * 2 ^ e' := by
  rcases (canonical_iff hm).mp hf with ⟨htop, hmin, -⟩
  rcases (canonical_iff hm').mp hg with ⟨-, -, hlow | hfull⟩
  · omega
  · have hmantissa : (m : ℚ) < 2 ^ 24 := by exact_mod_cast htop
    have hmantissa' : (2 : ℚ) ^ 23 ≤ m' := by exact_mod_cast hfull
    have hstep : (2 : ℚ) * 2 ^ e ≤ 2 ^ e' := by
      rw [← zpow_one_add₀ two_ne_zero]
      exact zpow_le_zpow_right₀ one_le_two (by omega)
    calc (m : ℚ) * 2 ^ e < 2 ^ 24 * 2 ^ e := mul_lt_mul_of_pos_right hmantissa (by positivity)
      _ = 2 ^ 23 * (2 * 2 ^ e) := by ring
      _ ≤ 2 ^ 23 * 2 ^ e' := mul_le_mul_of_nonneg_left hstep (by positivity)
      _ ≤ m' * 2 ^ e' := mul_le_mul_of_nonneg_right hmantissa' (by positivity)

theorem finite_lt_iff {s s' : UnpackedFloat.Sign} {m m' : ℕ} {e e' : ℤ} {hm : 0 < m} {hm' : 0 < m'}
    (hf : Canonical .binary32 (.finite s m e hm))
    (hg : Canonical .binary32 (.finite s' m' e' hm')) :
    e < e' ∨ e = e' ∧ m < m' ↔ (m : ℚ) * 2 ^ e < m' * 2 ^ e' := by
  rcases lt_trichotomy e e' with hlt | rfl | hgt
  · exact iff_of_true (Or.inl hlt) (finite_lt hf hg hlt)
  · rw [mul_lt_mul_iff_left₀ (by positivity), Nat.cast_lt]
    omega
  · exact iff_of_false (by omega) (finite_lt hg hf hgt).le.not_gt

/-- **Comparison** of numbers is exact. -/
theorem lt_iff_value (ha : value x = some a) (hb : value y = some b) : x < y ↔ a < b := by
  rw [lt_iff, unpacked_lt_iff]
  have hx := canonical x
  have hy := canonical y
  unfold value at ha hb
  obtain ⟨f, hf⟩ : ∃ f, f = x.toModel.unpack := ⟨_, rfl⟩
  obtain ⟨g, hg⟩ : ∃ g, g = y.toModel.unpack := ⟨_, rfl⟩
  rw [← hf] at ha hx ⊢
  rw [← hg] at hb hy ⊢
  have hpositive : ∀ (m : ℕ) (e : ℤ), 0 < m → (0 : ℚ) < m * 2 ^ e := by
    intro m e hm
    positivity
  rcases f with s | _ | s | ⟨s, m, e, hm⟩
  · exact absurd ha nofun
  · exact absurd ha nofun
  · rcases Option.some.inj ha with rfl
    rcases g with s' | _ | s' | ⟨s', m', e', hm'⟩
    · exact absurd hb nofun
    · exact absurd hb nofun
    · rcases Option.some.inj hb with rfl
      simp [RankLt, rank]
    · rcases Option.some.inj hb with rfl
      have hpos := hpositive m' e' hm'
      cases s'
      · simpa [RankLt, rank, signed] using hpos.le
      · simpa [RankLt, rank, signed] using hpos
  · rcases Option.some.inj ha with rfl
    have hpos := hpositive m e hm
    rcases g with s' | _ | s' | ⟨s', m', e', hm'⟩
    · exact absurd hb nofun
    · exact absurd hb nofun
    · rcases Option.some.inj hb with rfl
      cases s
      · simpa [RankLt, rank, signed] using hpos
      · simpa [RankLt, rank, signed] using hpos.le
    · rcases Option.some.inj hb with rfl
      have hpos' := hpositive m' e' hm'
      have hiff := finite_lt_iff hx hy
      have hiff' := finite_lt_iff hy hx
      cases s <;> cases s'
      · simp [RankLt, rank, signed, ← hiff']
        omega
      · simp [RankLt, rank, signed]
        linarith
      · simp [RankLt, rank, signed]
        linarith
      · simp [RankLt, rank, signed, ← hiff]

/-- A canonical value is determined by the number that it is, unless that is zero. -/
theorem canonical_ext {f g : UnpackedFloat} (hf : Canonical .binary32 f)
    (hg : Canonical .binary32 g) (ha : FloatRounding.value f = some a)
    (ha' : FloatRounding.value g = some a) (hne : a ≠ 0) : f = g := by
  have hfinite : ∀ h : UnpackedFloat, FloatRounding.value h = some a →
      ∃ s m e hm, h = .finite s m e hm ∧ a = signed s (m * 2 ^ e) := by
    intro h hh
    rcases h with s | _ | s | ⟨s, m, e, hm⟩
    · exact absurd hh nofun
    · exact absurd hh nofun
    · exact absurd (Option.some.inj hh).symm hne
    · exact ⟨s, m, e, hm, rfl, (Option.some.inj hh).symm⟩
  rcases hfinite f ha with ⟨s, m, e, hm, rfl, hs⟩
  rcases hfinite g ha' with ⟨s', m', e', hm', rfl, hs'⟩
  have hpos : (0 : ℚ) < m * 2 ^ e := by positivity
  have hpos' : (0 : ℚ) < m' * 2 ^ e' := by positivity
  have hsame : s = s' ∧ (m : ℚ) * 2 ^ e = m' * 2 ^ e' := by
    cases s <;> cases s' <;> simp only [signed] at hs hs'
    · exact ⟨rfl, by linarith⟩
    · linarith
    · linarith
    · exact ⟨rfl, by linarith⟩
  have hiff := finite_lt_iff hf hg
  have hiff' := finite_lt_iff hg hf
  rcases hsame with ⟨rfl, hvalue⟩
  rw [hvalue] at hiff hiff'
  have hnot := hiff.not.mpr (lt_irrefl _)
  have hnot' := hiff'.not.mpr (lt_irrefl _)
  obtain rfl : e = e' := by omega
  obtain rfl : m = m' := by omega
  rfl

/-! ## Conversion to an integer -/

/-- Without the bits behind the point, a mantissa is the integral part of the number. -/
theorem floor_mul_zpow (m : ℕ) (e : ℤ) :
    ⌊(m : ℚ) * 2 ^ e⌋ = ((UnpackedFloat.roundToInt .positive m e : ℤ)) := by
  rcases decreaseExponent_spec m e 0 with ⟨hexponent, hvalue, -⟩
  obtain ⟨n, hn⟩ : ∃ n, n = (UnpackedFloat.decreaseExponent m e 0).1 := ⟨_, rfl⟩
  obtain ⟨k, hk⟩ : ∃ k : ℕ, min e 0 = -(k : ℤ) := ⟨(-min e 0).toNat, by omega⟩
  have hround : UnpackedFloat.roundToInt .positive m e = ((n / 2 ^ k : ℕ) : ℤ) := by
    have hshift : UnpackedFloat.shiftToExponent n (-(k : ℤ)) .exact 0 =
        (UnpackedFloat.ExtendedMantissa.ofMantissaAndAccuracy n .exact >>> k, 0) := by
      have hamount : (0 - -(k : ℤ)).toNat = k := by omega
      rw [shiftToExponent_exact (by omega), hamount]
    have hpair : UnpackedFloat.decreaseExponent m e 0 = (n, -(k : ℤ)) :=
      Prod.ext hn.symm (hexponent.trans hk)
    rw [UnpackedFloat.roundToInt, hpair]
    simp only
    rw [hshift]
    show ((UnpackedFloat.ExtendedMantissa.ofMantissaAndAccuracy n .exact >>> k).mantissa : ℤ) = _
    rw [mantissa_shiftRight]
    rfl
  rw [hround, ← hvalue, hexponent, hk, ← hn, zpow_neg, zpow_natCast, Int.floor_eq_iff]
  have hdiv := Nat.div_add_mod n (2 ^ k)
  have hmod := Nat.mod_lt n (Nat.two_pow_pos k)
  have hpos : (0 : ℚ) < 2 ^ k := by positivity
  have hparts : (n : ℚ) = 2 ^ k * ((n / 2 ^ k : ℕ) : ℚ) + ((n % 2 ^ k : ℕ) : ℚ) := by
    exact_mod_cast hdiv.symm
  have hless : ((n % 2 ^ k : ℕ) : ℚ) < 2 ^ k := by exact_mod_cast hmod
  have hcast : (((n / 2 ^ k : ℕ) : ℤ) : ℚ) = ((n / 2 ^ k : ℕ) : ℚ) := Int.cast_natCast _
  rw [hcast, ← div_eq_mul_inv, le_div_iff₀ hpos, div_lt_iff₀ hpos]
  constructor
  · have hnonneg : (0 : ℚ) ≤ ((n % 2 ^ k : ℕ) : ℚ) := Nat.cast_nonneg _
    linarith
  · linarith

theorem toInt_ofIntClamp {i : ℤ} (hlow : -2 ^ 31 ≤ i) (hhigh : i < 2 ^ 31) :
    (Int32.ofIntClamp i).toInt = i := by
  have hmin : Int32.minValue.toInt = -2 ^ 31 := by decide
  have hmax : Int32.maxValue.toInt = 2 ^ 31 - 1 := by decide
  rw [Int32.ofIntClamp, dif_pos (by omega), dif_pos (by omega), Int32.toInt_ofIntLE]

/-- **Conversion** drops the fraction. -/
theorem toInt32_eq (ha : value x = some a) (hsmall : |a| < 2 ^ 31) :
    x.toModel.toInt32.toInt = Rounding.truncate a := by
  have hbounds := abs_lt.mp hsmall
  have htruncate : -2 ^ 31 ≤ Rounding.truncate a ∧ Rounding.truncate a < 2 ^ 31 := by
    unfold Rounding.truncate
    split_ifs with hsign
    · have hnonneg : 0 ≤ ⌊a⌋ := Int.floor_nonneg.mpr hsign
      have hless : ⌊a⌋ < 2 ^ 31 := by
        rw [Int.floor_lt]
        push_cast
        exact hbounds.2
      omega
    · have hlow : -2 ^ 31 ≤ ⌈a⌉ := by
        rw [Int.le_ceil_iff]
        push_cast
        linarith
      have hnonpos : ⌈a⌉ ≤ 0 := Int.ceil_le.mpr (by push_cast; linarith)
      omega
  have hint : x.toModel.unpack.toInt Int32.minValue.toInt Int32.maxValue.toInt =
      Rounding.truncate a := by
    unfold value at ha
    obtain ⟨f, hf⟩ : ∃ f, f = x.toModel.unpack := ⟨_, rfl⟩
    rw [← hf] at ha ⊢
    rcases f with s | _ | s | ⟨s, m, e, hm⟩
    · exact absurd ha nofun
    · exact absurd ha nofun
    · rcases Option.some.inj ha with rfl
      rw [Rounding.truncate, if_pos le_rfl, Int.floor_zero]
      rfl
    · rcases Option.some.inj ha with rfl
      have hpos : (0 : ℚ) < m * 2 ^ e := by positivity
      have hfloor := floor_mul_zpow m e
      cases s with
      | positive => rw [signed, Rounding.truncate, if_pos hpos.le, hfloor]; rfl
      | negative =>
          rw [signed, Rounding.truncate, if_neg (by linarith), Int.ceil_neg, hfloor]
          rfl
  show (Int32.ofIntClamp _).toInt = _
  rw [hint]
  exact toInt_ofIntClamp htruncate.1 htruncate.2

/-- A sum depends on the numbers only, away from zero. -/
theorem add_congr {x' y' : Float32} (hx : value x = some a) (hx' : value x' = some a)
    (ha : a ≠ 0) (hy : value y = some b) (hy' : value y' = some b) (hb : b ≠ 0) :
    x + y = x' + y' := by
  show Float32.ofModel (.pack (.add .binary32 x.toModel.unpack y.toModel.unpack)) =
    Float32.ofModel (.pack (.add .binary32 x'.toModel.unpack y'.toModel.unpack))
  rw [canonical_ext (canonical x) (canonical x') hx hx' ha,
    canonical_ext (canonical y) (canonical y') hy hy' hb]

/-- Changing the sign does not round. -/
theorem value_neg (ha : value x = some a) : value (-x) = some (-a) := by
  have hx := canonical x
  have hsmall := abs_value_lt ha
  unfold value at ha
  obtain ⟨f, hf⟩ : ∃ f, f = x.toModel.unpack := ⟨_, rfl⟩
  rw [← hf] at ha hx
  have hneg : Canonical .binary32 f.neg ∧ FloatRounding.value f.neg = some (-a) := by
    rcases f with s | _ | s | ⟨s, m, e, hm⟩
    · exact absurd ha nofun
    · exact absurd ha nofun
    · rcases Option.some.inj ha with rfl
      exact ⟨trivial, rfl⟩
    · rcases Option.some.inj ha with rfl
      refine ⟨hx, ?_⟩
      cases s
      · exact congrArg some (neg_neg _).symm
      · rfl
  have hpack : -x = .ofModel (.pack f.neg) := by
    rw [hf]
    rfl
  rw [hpack]
  have hrounds := rounds_pack hneg.1 hneg.2 (Nearest.self (value_mem_numbers hneg.1 hneg.2))
  exact hrounds.exact (value_mem_numbers hneg.1 hneg.2) (by rwa [abs_neg])

theorem value_zero : value (Zero.zero : Float32) = some 0 := rfl

theorem value_one : value (One.one : Float32) = some 1 := by
  have hone : value (One.one : Float32) = some (8388608 * 2 ^ (-23 : ℤ)) := rfl
  rw [hone]
  norm_num

theorem natCast_mem_points {n : ℕ} (hn : n < 2 ^ 23) : (n : ℚ) ∈ points := by
  have hmem : ((n : ℤ) : ℚ) * 2 ^ (0 : ℤ) ∈ points := by
    apply mem_grid
    · have hbits : n < 2 ^ Format.binary32.mantissaBits := hn.trans (by decide)
      rw [Nat.abs_cast]
      exact_mod_cast hbits
    · decide
  rwa [zpow_zero, mul_one, Int.cast_natCast] at hmem

theorem value_ofNat {n : ℕ} (hn : n < 2 ^ 23) : value (Float32.ofNat n) = some (n : ℚ) := by
  have hmem := natCast_mem_points hn
  have hsmall : |(n : ℚ)| < 2 ^ 128 := by
    rw [Nat.abs_cast]
    have hcast : (n : ℚ) < 2 ^ 23 := by exact_mod_cast hn
    exact hcast.trans (by norm_num)
  have hword : value n.toUInt64.toFloat32 = some (n : ℚ) := by
    rcases @normalize_spec .binary32 0 n.toUInt64.toNat .positive with ⟨hcanonical, c, hc, hnear⟩
    have htoNat : n.toUInt64.toNat = n := Nat.mod_eq_of_lt (by omega)
    rw [htoNat, zpow_zero, mul_one, Int.cast_natCast] at hnear
    exact (rounds_pack hcanonical hc hnear).exact hmem hsmall
  have hone : value (Float32.ofBits 0x3f800000) = some 1 := value_one
  have hproduct := rounds_mul hword hone
  have hnat : Float32.ofNat n = n.toUInt64.toFloat32 * Float32.ofBits 0x3f800000 :=
    dif_pos ⟨hn, by omega⟩
  rw [mul_one, ← hnat] at hproduct
  exact hproduct.exact hmem hsmall

/-- Small integers are not rounded. -/
theorem value_ofInt {n : ℤ} (hn : |n| < 2 ^ 23) : value (Float32.ofInt n) = some (n : ℚ) := by
  rcases abs_lt.mp hn with ⟨hlow, hhigh⟩
  cases n with
  | ofNat k =>
      have hint : (k : ℤ) < 2 ^ 23 := hhigh
      have hk : k < 2 ^ 23 := by exact_mod_cast hint
      exact value_ofNat hk
  | negSucc k =>
      have hk : k + 1 < 2 ^ 23 := by omega
      have hneg := value_neg (value_ofNat hk)
      have hcast : ((Int.negSucc k : ℤ) : ℚ) = -((k + 1 : ℕ) : ℚ) := by
        push_cast [Int.negSucc_eq]
        ring
      rw [hcast]
      exact hneg

/-! ## Infinities and NaN -/

theorem unpack_pack_of_none {f : UnpackedFloat} (hf : FloatRounding.value f = none) :
    (Float32.Model.pack f).unpack = f := by
  cases f with
  | infinity s => exact unpack_packedInfinity .binary32 s
  | notANumber => exact unpack_packedNaN .binary32
  | zero s => exact absurd hf nofun
  | finite s m e hm => exact absurd hf nofun

theorem value_pack_of_none {f : UnpackedFloat} (hf : FloatRounding.value f = none) :
    value (.ofModel (.pack f)) = none := by
  rw [value]
  exact (congrArg FloatRounding.value (unpack_pack_of_none hf)).trans hf

/-- The values that are no numbers. -/
theorem none_cases {f : UnpackedFloat} (hf : FloatRounding.value f = none) :
    f = .notANumber ∨ ∃ s, f = .infinity s := by
  cases f with
  | infinity s => exact Or.inr ⟨s, rfl⟩
  | notANumber => exact Or.inl rfl
  | zero s => exact absurd hf (Option.some_ne_none _)
  | finite s m e hm => exact absurd hf (Option.some_ne_none _)

theorem mul_none {f g : UnpackedFloat}
    (h : FloatRounding.value f = none ∨ FloatRounding.value g = none) :
    FloatRounding.value (UnpackedFloat.mul .binary32 f g) = none := by
  rcases h with h | h
  · rcases none_cases h with rfl | ⟨s, rfl⟩
    · rfl
    · cases g <;> rfl
  · rcases none_cases h with rfl | ⟨s, rfl⟩
    · cases f <;> rfl
    · cases f <;> rfl

theorem add_none {f g : UnpackedFloat}
    (h : FloatRounding.value f = none ∨ FloatRounding.value g = none) :
    FloatRounding.value (UnpackedFloat.add .binary32 f g) = none := by
  -- the sum of two infinities is one of them or NaN
  have hboth : ∀ s s',
      FloatRounding.value (.add .binary32 (.infinity s) (.infinity s')) = none := by
    intro s s'
    cases s <;> cases s' <;> rfl
  rcases h with h | h
  · rcases none_cases h with rfl | ⟨s, rfl⟩
    · rfl
    · cases g with
      | infinity s' => exact hboth s s'
      | notANumber => rfl
      | zero s' => rfl
      | finite s' m e hm => rfl
  · rcases none_cases h with rfl | ⟨s, rfl⟩
    · cases f <;> rfl
    · cases f with
      | infinity s' => exact hboth s' s
      | notANumber => rfl
      | zero s' => rfl
      | finite s' m e hm => rfl

theorem neg_none {f : UnpackedFloat} (h : FloatRounding.value f = none) :
    FloatRounding.value f.neg = none := by
  rcases none_cases h with rfl | ⟨s, rfl⟩ <;> rfl

/-- Where no mantissas are subtracted, a difference is the sum with the opposite. -/
theorem sub_eq_add_neg_of_none {f g : UnpackedFloat}
    (h : FloatRounding.value f = none ∨ FloatRounding.value g = none) :
    UnpackedFloat.sub .binary32 f g = .add .binary32 f g.neg := by
  rcases h with h | h
  · rcases none_cases h with rfl | ⟨s, rfl⟩
    · rfl
    · cases g <;> rfl
  · rcases none_cases h with rfl | ⟨s, rfl⟩
    · cases f <;> rfl
    · cases f <;> rfl

theorem sub_none {f g : UnpackedFloat}
    (h : FloatRounding.value f = none ∨ FloatRounding.value g = none) :
    FloatRounding.value (UnpackedFloat.sub .binary32 f g) = none := by
  rw [sub_eq_add_neg_of_none h]
  exact add_none (h.imp_right neg_none)

theorem sqrt_none {f : UnpackedFloat} (h : FloatRounding.value f = none) :
    FloatRounding.value (UnpackedFloat.sqrt .binary32 f) = none := by
  rcases none_cases h with rfl | ⟨s, rfl⟩
  · rfl
  · cases s <;> rfl

theorem div_none {f g : UnpackedFloat} (hf : FloatRounding.value f = none)
    (hg : FloatRounding.value g = none) :
    UnpackedFloat.div .binary32 f g = .notANumber := by
  rcases none_cases hf with rfl | ⟨s, rfl⟩
  · rfl
  · rcases none_cases hg with rfl | ⟨s', rfl⟩ <;> rfl

theorem div_none_left {f g : UnpackedFloat} (hf : FloatRounding.value f = none) :
    FloatRounding.value (UnpackedFloat.div .binary32 f g) = none := by
  rcases none_cases hf with rfl | ⟨s, rfl⟩
  · rfl
  · cases g <;> rfl

/-- **Arithmetic with a value that is no number** gives no number. -/
theorem value_mul_none (h : value x = none ∨ value y = none) : value (x * y) = none :=
  value_pack_of_none (mul_none h)

theorem value_add_none (h : value x = none ∨ value y = none) : value (x + y) = none :=
  value_pack_of_none (add_none h)

theorem value_sub_none (h : value x = none ∨ value y = none) : value (x - y) = none :=
  value_pack_of_none (sub_none h)

theorem value_sqrt_none (h : value x = none) : value x.sqrt = none :=
  value_pack_of_none (sqrt_none h)

theorem value_div_none (h : value x = none) : value (x / y) = none :=
  value_pack_of_none (div_none_left h)

/-- The quotient of two values that are no numbers is NaN. -/
theorem unpack_div_none (hx : value x = none) (hy : value y = none) :
    (x / y).toModel.unpack = .notANumber := by
  show (Float32.Model.pack (UnpackedFloat.div .binary32 _ _)).unpack = _
  rw [div_none hx hy]
  exact unpack_pack_of_none rfl

/-- Nothing is below NaN. -/
theorem not_lt_notANumber (h : y.toModel.unpack = .notANumber) : ¬ x < y := by
  rw [lt_iff, unpacked_lt_iff]
  intro hlt
  exact hlt.2.1 h

/-- Nothing is below the negative infinity or above the positive one. -/
theorem not_rankLt_infinity (f : UnpackedFloat) :
    ¬ RankLt (rank f) (rank (.infinity .negative)) ∧
      ¬ RankLt (rank (.infinity .positive)) (rank f) := by
  rcases f with (_ | _) | _ | s | ⟨_ | _, m, e, hm⟩ <;> simp [RankLt, rank]

/-- Every number is below the positive infinity and above the negative one. -/
theorem lt_infinity (ha : value x = some a) :
    (y.toModel.unpack = .infinity .positive → x < y) ∧
      (y.toModel.unpack = .infinity .negative → y < x) := by
  rw [lt_iff, lt_iff, unpacked_lt_iff, unpacked_lt_iff]
  unfold value at ha
  obtain ⟨f, hf⟩ : ∃ f, f = x.toModel.unpack := ⟨_, rfl⟩
  rw [← hf] at ha ⊢
  constructor
  · intro hy
    rw [hy]
    rcases f with s | _ | s | ⟨_ | _, m, e, hm⟩
    · exact absurd ha nofun
    · exact absurd ha nofun
    all_goals simp [RankLt, rank]
  · intro hy
    rw [hy]
    rcases f with s | _ | s | ⟨_ | _, m, e, hm⟩
    · exact absurd ha nofun
    · exact absurd ha nofun
    all_goals simp [RankLt, rank]

/-- An infinity times a positive number. -/
theorem mul_infinity {s : UnpackedFloat.Sign} (hx : x.toModel.unpack = .infinity s)
    (hb : value y = some b) (hpos : 0 < b) : (x * y).toModel.unpack = .infinity s := by
  have hmul : UnpackedFloat.mul .binary32 (.infinity s) y.toModel.unpack = .infinity s := by
    unfold value at hb
    obtain ⟨g, hg⟩ : ∃ g, g = y.toModel.unpack := ⟨_, rfl⟩
    rw [← hg] at hb ⊢
    rcases g with s' | _ | s' | ⟨s', m, e, hm⟩
    · exact absurd hb nofun
    · exact absurd hb nofun
    · exact absurd (Option.some.inj hb) hpos.ne
    · cases s' with
      | positive =>
          cases s
          · rfl
          · rfl
      | negative =>
          have hneg : -((m : ℚ) * 2 ^ e) = b := Option.some.inj hb
          have hpositive : (0 : ℚ) < m * 2 ^ e := by positivity
          linarith
  show (Float32.Model.pack (UnpackedFloat.mul .binary32 _ _)).unpack = _
  rw [hx, hmul]
  exact unpack_pack_of_none rfl

/-- What is above a number is a number or the positive infinity. -/
theorem above_cases (ha : value x = some a) (h : x < y) :
    (∃ b, value y = some b ∧ a < b) ∨ y.toModel.unpack = .infinity .positive := by
  rcases hy : value y with - | b
  · right
    rcases none_cases hy with hnan | ⟨s, hs⟩
    · exact absurd h (not_lt_notANumber hnan)
    · cases s with
      | positive => exact hs
      | negative =>
          rw [lt_iff, unpacked_lt_iff, hs] at h
          exact absurd h.2.2 (not_rankLt_infinity _).1
  · exact Or.inl ⟨b, rfl, (lt_iff_value ha hy).mp h⟩

end

end AudioProc.Binary32
