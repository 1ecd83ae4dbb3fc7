import AudioProc.Binary32Arithmetic
import AudioProc.SampleConversion

/-!
# The sample conversions in binary32

The conversions of `common_audio/audio_util` in the arithmetic of the program. Scaling with a
power of two is exact, and so are the bounds, so that the only rounding is that of the sum with
the half. It can only matter for the integral part where the sum has to give bits up, and that
leaves one number on each side of zero: the largest below one half, whose sum with the half is
rounded up to 1. Every other sample goes to the nearest integer.

* `slip`: the exception;
* `floor_nearest_half`: the integral part of the rounded sum;
* `floatToS16_binary32`: the conversions to S16;
* `floatS16ToFloats_floatToFloatS16s`: those between Float and FloatS16.
-/

namespace AudioProc.AudioUtil

open FloatOps Binary32 Rounding

/-! ## The half with the sign of the sample -/

theorem value_half : value (0.5 : Float32) = some (1 / 2) := by
  have hhalf : value (0.5 : Float32) = some (8388608 * 2 ^ (-24 : ℤ)) := rfl
  rw [hhalf]
  norm_num

theorem signBit_cases (x : Float32) :
    x.toBits &&& 0x80000000 = 0 ∧ (∀ b, value x = some b → 0 ≤ b) ∨
      x.toBits &&& 0x80000000 = 0x80000000 ∧ ∀ b, value x = some b → b ≤ 0 := by
  have hmask : (0x80000000 : UInt32).toBitVec = BitVec.twoPow 32 31 := by decide
  have hand : (x.toBits &&& 0x80000000).toBitVec =
      if x.toBits.toBitVec.getLsbD 31 then BitVec.twoPow 32 31 else 0 := by
    rw [UInt32.toBitVec_and, hmask, BitVec.and_twoPow]
    rfl
  have hsign : @Float.Model.UnpackedFloat.unpackSign .binary32 x.toBits.toBitVec =
      BitVec.ofBool (x.toBits.toBitVec.getLsbD 31) := by
    ext i hi
    have hzero : i = 0 := by omega
    subst hzero
    simp [Float.Model.UnpackedFloat.unpackSign]
    exact BitVec.getLsbD_eq_getElem (by decide)
  cases hbit : x.toBits.toBitVec.getLsbD 31 with
  | false =>
      left
      rw [hbit] at hand hsign
      refine ⟨UInt32.toBitVec_inj.mp hand, ?_⟩
      intro b hb
      exact (FloatRounding.unpack_sign _ hb).1 hsign
  | true =>
      right
      rw [hbit] at hand hsign
      refine ⟨UInt32.toBitVec_inj.mp (hand.trans hmask.symm), ?_⟩
      intro b hb
      refine (FloatRounding.unpack_sign _ hb).2 ?_
      exact fun h => absurd (hsign.symm.trans h) (by decide)

/-- `std::copysign` gives plus or minus one half. -/
theorem copysign_half_cases (x : Float32) :
    value (copysign 0.5 x) = some (1 / 2) ∧ (∀ b, value x = some b → 0 ≤ b) ∨
      value (copysign 0.5 x) = some (-(1 / 2)) ∧ ∀ b, value x = some b → b ≤ 0 := by
  have hmagnitude : (0.5 : Float32).toBits &&& 0x7fffffff = 0x3f000000 := by decide +kernel
  have hbits : copysign 0.5 x = Float32.ofBits (0x3f000000 ||| (x.toBits &&& 0x80000000)) := by
    rw [← hmagnitude]
    rfl
  rw [hbits]
  rcases signBit_cases x with ⟨hbit, hsign⟩ | ⟨hbit, hsign⟩
  · left
    rw [hbit]
    exact ⟨value_half, hsign⟩
  · right
    have hminus : value (Float32.ofBits (0x3f000000 ||| 0x80000000)) =
        some (-(8388608 * 2 ^ (-24 : ℤ))) := rfl
    rw [hbit, hminus]
    refine ⟨?_, hsign⟩
    norm_num

/-! ## Clamping -/

/-- The sample in the range of `int16_t`. -/
def clampS16 (v : Float32) : Float32 := stdMax (stdMin v 32767.0) (-32768.0)

def saturate (a : ℚ) : ℚ := max (min a 32767) (-32768)

theorem castArgument_eq (v : Float32) :
    castArgument v = clampS16 v + copysign 0.5 (clampS16 v) := rfl

theorem value_upper : value (32767.0 : Float32) = some 32767 := by
  have hupper : value (32767.0 : Float32) = some (16776704 * 2 ^ (-9 : ℤ)) := rfl
  rw [hupper]
  norm_num

theorem value_lower : value (-32768.0 : Float32) = some (-32768) := by
  have hlower : value (-32768.0 : Float32) = some (-(8388608 * 2 ^ (-8 : ℤ))) := rfl
  rw [hlower]
  norm_num

theorem value_scale : value (32768.0 : Float32) = some 32768 := by
  have hscale : value (32768.0 : Float32) = some (8388608 * 2 ^ (-8 : ℤ)) := rfl
  rw [hscale]
  norm_num

/-- `kScaling` -/
theorem value_scaling : value (One.one / 32768.0 : Float32) = some (2 ^ (-15 : ℤ)) := by
  have hquotient : value (One.one / 32768.0 : Float32) = some (8388608 * 2 ^ (-38 : ℤ)) := rfl
  rw [hquotient]
  norm_num

theorem stdMin_value {x y : Float32} {a b : ℚ} (ha : value x = some a) (hb : value y = some b) :
    value (stdMin x y) = some (min a b) := by
  have hlt := lt_iff_value hb ha
  unfold FloatOps.stdMin
  split_ifs with h
  · rw [hb, min_eq_right (hlt.mp h).le]
  · rw [ha, min_eq_left (not_lt.mp (mt hlt.mpr h))]

theorem stdMax_value {x y : Float32} {a b : ℚ} (ha : value x = some a) (hb : value y = some b) :
    value (stdMax x y) = some (max a b) := by
  have hlt := lt_iff_value ha hb
  unfold FloatOps.stdMax
  split_ifs with h
  · rw [hb, max_eq_right (hlt.mp h).le]
  · rw [ha, max_eq_left (not_lt.mp (mt hlt.mpr h))]

theorem clampS16_value {v : Float32} {a : ℚ} (ha : value v = some a) :
    value (clampS16 v) = some (saturate a) :=
  stdMax_value (stdMin_value ha value_upper) value_lower

theorem clampS16_infinity {v : Float32} :
    (v.toModel.unpack = .infinity .positive → value (clampS16 v) = some 32767) ∧
      (v.toModel.unpack = .infinity .negative → value (clampS16 v) = some (-32768)) := by
  constructor
  · intro hv
    have hmin : stdMin v 32767.0 = 32767.0 := if_pos ((lt_infinity value_upper).1 hv)
    have hvalue := stdMax_value value_upper value_lower
    rw [clampS16, hmin, hvalue]
    norm_num
  · intro hv
    have hmin : stdMin v 32767.0 = v := by
      apply if_neg
      exact asymm_of (· < ·) ((lt_infinity value_upper).2 hv)
    have hmax : stdMax v (-32768.0) = -32768.0 := if_pos ((lt_infinity value_lower).2 hv)
    rw [clampS16, hmin, hmax, value_lower]

theorem mul_scale_mem_points {a : ℚ} (ha : a ∈ points) : a * 32768 ∈ points := by
  rcases ha with ⟨m, k, hm, hk, rfl⟩
  have hscaled : (m : ℚ) * 2 ^ k * 32768 = m * 2 ^ (k + 15) := by
    rw [zpow_add₀ two_ne_zero]
    norm_num [mul_assoc]
  rw [hscaled]
  exact mem_grid hm (by omega)

/-- **Scaling** with `2 ^ 15` is exact, and where it overflows the sample is clamped anyway. -/
theorem clampS16_scaled {v : Float32} {a : ℚ} (ha : value v = some a) :
    value (clampS16 (v * 32768.0)) = some (saturate (a * 32768)) := by
  have hmem := mul_scale_mem_points (value_mem_points ha)
  rcases rounds_mul ha value_scale with ⟨c, hnear, hcase⟩
  have hc := hnear.eq hmem
  rcases hcase with ⟨-, hvalue⟩ | ⟨hover, hinf⟩ | ⟨hover, hinf⟩
  · rw [clampS16_value hvalue, hc]
  · have hlarge : 32767 ≤ a * 32768 := by
      rw [← hc]
      exact le_trans (by norm_num) hover
    rw [clampS16_infinity.1 hinf, saturate, min_eq_right hlarge]
    norm_num
  · have hsmall : a * 32768 ≤ -32768 := by
      rw [← hc]
      exact hover.trans (by norm_num)
    rw [clampS16_infinity.2 hinf, saturate, min_eq_left (by linarith), max_eq_right hsmall]

theorem saturate_bounds (a : ℚ) : -32768 ≤ saturate a ∧ saturate a ≤ 32767 :=
  ⟨le_max_right _ _, max_le (min_le_right _ _) (by norm_num)⟩

/-! ## The sum with the half -/

/-- The largest number below one half. Its sum with the half is rounded up to 1. -/
def slip : ℚ := 1 / 2 - 2 ^ (-25 : ℤ)

/-- What the cast makes of the number `b`: the nearest integer, but for the slip. -/
def roundS16 (b : ℚ) : ℤ := if b = slip then 1 else if b = -slip then -1 else roundAway b

theorem slip_pos : 0 < slip := by norm_num [slip]

theorem roundAway_slip : roundAway slip = 0 := by
  rw [roundAway, if_pos slip_pos.le, Int.floor_eq_zero_iff]
  constructor
  · norm_num [slip]
  · norm_num [slip]

theorem roundS16_neg (b : ℚ) : roundS16 (-b) = -roundS16 b := by
  have hpos := slip_pos
  unfold roundS16
  by_cases hslip : b = slip
  · rw [if_pos hslip, if_neg (by linarith), if_pos (by rw [hslip])]
  · by_cases hminus : b = -slip
    · rw [if_neg hslip, if_pos hminus, if_pos (by rw [hminus, neg_neg]), neg_neg]
    · rw [if_neg hslip, if_neg hminus, if_neg (fun h => hminus (by rw [← h, neg_neg])),
        if_neg (fun h => hslip (neg_injective h)), roundAway_neg]

/-- Between the slip and one half there is no number. -/
theorem points_near_half {b : ℚ} (hb : b ∈ points) (h : 1 / 2 - 2 ^ (-24 : ℤ) < b) :
    b = slip ∨ 1 / 2 ≤ b := by
  have hquarter : (2 : ℚ) ^ (24 - 1) * 2 ^ (-25 : ℤ) = 1 / 4 := by norm_num
  have hhalf : (1 / 2 : ℚ) = 16777216 * 2 ^ (-25 : ℤ) := by norm_num
  have hfine : (2 : ℚ) ^ (-24 : ℤ) = 2 * 2 ^ (-25 : ℤ) := by norm_num
  have hpos : (0 : ℚ) < 2 ^ (-25 : ℤ) := by positivity
  have hlow : (2 : ℚ) ^ (24 - 1) * 2 ^ (-25 : ℤ) ≤ b := by
    rw [hquarter]
    exact le_trans (by norm_num) h.le
  rcases grid_multiple (by decide) hb hlow with ⟨r, rfl⟩
  have hr : (16777214 : ℚ) < r := by
    apply lt_of_mul_lt_mul_right _ hpos.le
    rw [hhalf, hfine] at h
    linarith
  have hint : 16777214 < r := by exact_mod_cast hr
  rcases Int.lt_or_le r 16777216 with hless | hmore
  · left
    obtain rfl : r = 16777215 := by omega
    norm_num [slip]
  · right
    have hmore' : (16777216 : ℚ) ≤ r := by exact_mod_cast hmore
    rw [hhalf]
    exact mul_le_mul_of_nonneg_right hmore' hpos.le

/-- Half integers in the range are numbers. -/
theorem half_mem_points {n : ℤ} (h₀ : 0 ≤ n) (h₁ : n < 2 ^ 24) :
    (n : ℚ) * 2 ^ (-1 : ℤ) ∈ points := by
  apply mem_grid
  · rw [abs_of_nonneg h₀]
    exact h₁
  · decide

/-- From 1 on a half more leaves enough bits, up to the next integer. -/
theorem add_half_mem_points {b : ℚ} {n : ℕ} (hb : b ∈ points) (hn : n ≠ 0) (htop : n ≤ 32768)
    (hlow : n ≤ b) (hhigh : b + 1 / 2 < n + 1) : b + 1 / 2 ∈ points := by
  obtain ⟨j, hj⟩ : ∃ j, j = n.log2 := ⟨_, rfl⟩
  have hpower : 2 ^ j ≤ n := hj ▸ Nat.log2_self_le hn
  have hnext : n < 2 ^ (j + 1) := hj ▸ Nat.lt_log2_self
  have hsmall : j < 16 := by
    by_contra hlarge
    have hpow : 2 ^ 16 ≤ 2 ^ j := Nat.pow_le_pow_right two_pos (not_lt.mp hlarge)
    omega
  have hpos : (0 : ℚ) < 2 ^ ((j : ℤ) - 23) := by positivity
  have hunit : (2 : ℚ) ^ 23 * 2 ^ ((j : ℤ) - 23) = 2 ^ j := by
    rw [← zpow_natCast, ← zpow_natCast, ← zpow_add₀ two_ne_zero]
    congr 1
    push_cast
    ring
  have hhalf : (2 : ℚ) ^ (22 - j) * 2 ^ ((j : ℤ) - 23) = 1 / 2 := by
    rw [← zpow_natCast, ← zpow_add₀ two_ne_zero, Nat.cast_sub (by omega)]
    have hexponent : ((22 : ℕ) : ℤ) - j + (j - 23) = -1 := by
      push_cast
      ring
    rw [hexponent]
    norm_num
  -- all the bits of `b` are above the unit of its power of two, and so are those of the half
  have hpower' : (2 : ℚ) ^ j ≤ n := by exact_mod_cast hpower
  have hfull : (2 : ℚ) ^ (24 - 1) * 2 ^ ((j : ℤ) - 23) ≤ b := by
    rw [hunit]
    exact hpower'.trans hlow
  rcases grid_multiple (by decide) hb hfull with ⟨r, rfl⟩
  have hsum : (r : ℚ) * 2 ^ ((j : ℤ) - 23) + 1 / 2 =
      ((r + 2 ^ (22 - j) : ℤ) : ℚ) * 2 ^ ((j : ℤ) - 23) := by
    push_cast
    rw [add_mul, hhalf]
  have hr : (0 : ℚ) ≤ r := by
    apply nonneg_of_mul_nonneg_left _ hpos
    exact le_trans (by positivity) hlow
  have hr' : 0 ≤ r := by exact_mod_cast hr
  rw [hsum] at hhigh ⊢
  apply mem_grid
  · have hnext' : (n : ℚ) + 1 ≤ 2 ^ (j + 1) := by exact_mod_cast hnext
    have hbound : ((r + 2 ^ (22 - j) : ℤ) : ℚ) < 2 ^ 24 := by
      apply lt_of_mul_lt_mul_right _ hpos.le
      have hdouble : (2 : ℚ) ^ 24 * 2 ^ ((j : ℤ) - 23) = 2 ^ (j + 1) := by
        rw [pow_succ, pow_succ 2 j, ← hunit]
        ring
      rw [hdouble]
      linarith
    rw [abs_of_nonneg (by positivity)]
    exact_mod_cast hbound
  · have hmin : Float.Model.Format.binary32.minExponent = -149 := rfl
    omega

/-- **Rounding the sum** does not change its integral part, but for the slip. -/
theorem floor_nearest_half {b y : ℚ} (hb : b ∈ points) (h₀ : 0 ≤ b) (h₁ : b ≤ 32768)
    (hslip : b ≠ slip) (h : Nearest points (b + 1 / 2) y) : ⌊y⌋ = ⌊b + 1 / 2⌋ := by
  obtain ⟨n, hn⟩ : ∃ n : ℕ, ⌊b + 1 / 2⌋ = n :=
    Int.eq_ofNat_of_zero_le (Int.floor_nonneg.mpr (by linarith))
  have hfloor := Int.floor_eq_iff.mp hn
  rw [Int.cast_natCast] at hfloor
  rcases hfloor with ⟨hlow, hhigh⟩
  have htop : n ≤ 32768 := by
    have hreal : (n : ℚ) < 32769 := by linarith
    have hnat : n < 32769 := by exact_mod_cast hreal
    omega
  -- the integers are numbers, so that only the one above has to be excluded
  have hsuff : y < n + 1 := by
    rcases Nat.eq_zero_or_pos n with rfl | hpos
    · rw [Nat.cast_zero, zero_add] at hhigh ⊢
      rcases le_or_gt b (1 / 2 - 2 ^ (-24 : ℤ)) with hle | hgt
      · have hmem : ((2 ^ 24 - 1 : ℤ) : ℚ) * 2 ^ (-24 : ℤ) ∈ points := by
          apply mem_grid
          · decide
          · decide
        have hbelow := h.le hmem (by norm_num at hle ⊢; linarith)
        exact lt_of_le_of_lt hbelow (by norm_num)
      · rcases points_near_half hb hgt with heq | hhalf
        · exact absurd heq hslip
        · linarith
    · rcases lt_or_ge b n with hless | hmore
      · have hmem : ((2 * n + 1 : ℤ) : ℚ) * 2 ^ (-1 : ℤ) ∈ points :=
          half_mem_points (by omega) (by omega)
        have hbelow := h.le hmem (by push_cast; norm_num; linarith)
        push_cast at hbelow
        norm_num at hbelow
        linarith
      · rw [h.eq (add_half_mem_points hb hpos.ne' htop hmore hhigh)]
        exact hhigh
  have hint : ((2 * n : ℤ) : ℚ) * 2 ^ (-1 : ℤ) ∈ points :=
    half_mem_points (by omega) (by omega)
  have hsame : ((2 * n : ℤ) : ℚ) * 2 ^ (-1 : ℤ) = n := by
    push_cast
    ring
  rw [hn, Int.floor_eq_iff, Int.cast_natCast]
  exact ⟨h.ge (hsame ▸ hint) hlow, hsuff⟩

/-! ## The cast -/

theorem value_slip : value (Float32.ofBits 0x3effffff) = some slip ∧
    value (Float32.ofBits 0xbeffffff) = some (-slip) := by
  have hplus : value (Float32.ofBits 0x3effffff) = some (16777215 * 2 ^ (-25 : ℤ)) := rfl
  have hminus : value (Float32.ofBits 0xbeffffff) = some (-(16777215 * 2 ^ (-25 : ℤ))) := rfl
  rw [hplus, hminus]
  norm_num [slip]

/-- The slip and the half make one, by the tie to the even mantissa. -/
theorem slip_add_half {x h : Float32} :
    (value x = some slip → value h = some (1 / 2) → value (x + h) = some 1) ∧
      (value x = some (-slip) → value h = some (-(1 / 2)) → value (x + h) = some (-1)) := by
  have hpos := slip_pos
  constructor
  · intro hx hh
    have hsum : value (Float32.ofBits 0x3effffff + 0.5) = some (8388608 * 2 ^ (-23 : ℤ)) := rfl
    rw [add_congr hx value_slip.1 hpos.ne' hh value_half (by norm_num), hsum]
    norm_num
  · intro hx hh
    have hhalf : value (-0.5 : Float32) = some (-(1 / 2)) := value_neg value_half
    have hsum : value (Float32.ofBits 0xbeffffff + -0.5) =
        some (-(8388608 * 2 ^ (-23 : ℤ))) := rfl
    rw [add_congr hx value_slip.2 (by linarith) hh hhalf (by norm_num), hsum]
    norm_num

/-- The cast of a number in the range drops the fraction. -/
theorem toInt_castS16 {x : Float32} {c : ℚ} (hc : value x = some c) (hlow : -32769 < c)
    (hhigh : c < 32768) : (castS16 x).toInt = Rounding.truncate c := by
  have htruncate : FloatOps.truncate x = Rounding.truncate c := by
    apply toInt32_eq hc
    rw [abs_lt]
    constructor
    · exact lt_trans (by norm_num) hlow
    · exact hhigh.trans (by norm_num)
  have hbounds : -32768 ≤ Rounding.truncate c ∧ Rounding.truncate c < 32768 := by
    unfold Rounding.truncate
    split_ifs with hsign
    · have hnonneg : 0 ≤ ⌊c⌋ := Int.floor_nonneg.mpr hsign
      have hless : ⌊c⌋ < 32768 := Int.floor_lt.mpr (by exact_mod_cast hhigh)
      omega
    · have hmore : -32769 < ⌈c⌉ := Int.lt_ceil.mpr (by exact_mod_cast hlow)
      have hnonpos : ⌈c⌉ ≤ 0 := Int.ceil_le.mpr (by push_cast; linarith)
      omega
  rw [castS16, htruncate, Int16.toInt_ofInt_of_le hbounds.1 hbounds.2]

/-- A sample from 0 on, with the half on top of it. -/
theorem toInt_castS16_add_half {x h : Float32} {b : ℚ} (hb : value x = some b)
    (hh : value h = some (1 / 2)) (h₀ : 0 ≤ b) (h₁ : b ≤ 32767) :
    (castS16 (x + h)).toInt = roundS16 b := by
  have hpos := slip_pos
  rw [roundS16]
  by_cases hslip : b = slip
  · rw [hslip] at hb
    rw [if_pos hslip, toInt_castS16 (slip_add_half.1 hb hh) (by norm_num) (by norm_num),
      Rounding.truncate, if_pos zero_le_one, Int.floor_one]
  · have hmem : ((65535 : ℤ) : ℚ) * 2 ^ (-1 : ℤ) ∈ points := half_mem_points (by decide) (by decide)
    have hzero : (0 : ℚ) ∈ points := zero_mem_grid
    rcases (rounds_add hb hh).between hzero hmem (by linarith) (by norm_num; linarith)
      (by norm_num) (by norm_num) with ⟨c, hc, hnear, hlow, hhigh⟩
    have hc₁ : c < 32768 := lt_of_le_of_lt hhigh (by norm_num)
    have hfloor := floor_nearest_half (value_mem_points hb) h₀ (by linarith) hslip hnear
    rw [if_neg hslip, if_neg (by linarith), toInt_castS16 hc (by linarith) hc₁, Rounding.truncate,
      if_pos hlow, hfloor, roundAway, if_pos h₀]

/-- The same below 0. -/
theorem toInt_castS16_sub_half {x h : Float32} {b : ℚ} (hb : value x = some b)
    (hh : value h = some (-(1 / 2))) (h₀ : b ≤ 0) (h₁ : -32768 ≤ b) :
    (castS16 (x + h)).toInt = roundS16 b := by
  have hpos := slip_pos
  by_cases hslip : b = -slip
  · rw [hslip] at hb
    have hround : roundS16 b = -1 := by
      rw [roundS16, if_neg (by linarith), if_pos hslip]
    rw [hround, toInt_castS16 (slip_add_half.2 hb hh) (by norm_num) (by norm_num),
      Rounding.truncate, if_neg (by norm_num), Int.ceil_neg, Int.floor_one]
  · have hlow' : -(((65537 : ℤ) : ℚ) * 2 ^ (-1 : ℤ)) ∈ points :=
      neg_mem_grid (half_mem_points (by decide) (by decide))
    have hhigh' : -(((1 : ℤ) : ℚ) * 2 ^ (-1 : ℤ)) ∈ points :=
      neg_mem_grid (half_mem_points (by decide) (by decide))
    rcases (rounds_add hb hh).between hlow' hhigh' (by norm_num; linarith) (by norm_num; linarith)
      (by norm_num) (by norm_num) with ⟨c, hc, hnear, hlow, hhigh⟩
    have hc₀ : c < 0 := lt_of_le_of_lt hhigh (by norm_num)
    have hc₁ : -32769 < c := lt_of_lt_of_le (by norm_num) hlow
    -- on the other side of zero it is the sum of before
    have hopposite := hnear.neg fun _ => neg_mem_grid
    rw [neg_add, neg_neg] at hopposite
    have hfloor := floor_nearest_half (neg_mem_grid (value_mem_points hb)) (neg_nonneg.mpr h₀)
      (by linarith) (fun heq => hslip (by rw [← heq, neg_neg])) hopposite
    have hround : roundS16 b = -roundAway (-b) := by
      rw [roundS16, if_neg (by linarith), if_neg hslip, roundAway_neg, neg_neg]
    rw [hround, toInt_castS16 hc hc₁ (by linarith), Rounding.truncate, if_neg (by linarith),
      roundAway, if_pos (neg_nonneg.mpr h₀), ← hfloor, Int.floor_neg, neg_neg]

theorem toInt_floatS16ToS16_of_clamped {v : Float32} {b : ℚ} (hb : value (clampS16 v) = some b)
    (hlow : -32768 ≤ b) (hhigh : b ≤ 32767) : (floatS16ToS16 v).toInt = roundS16 b := by
  rw [floatS16ToS16_eq, castArgument_eq]
  rcases copysign_half_cases (clampS16 v) with ⟨hhalf, hsign⟩ | ⟨hhalf, hsign⟩
  · exact toInt_castS16_add_half hb hhalf (hsign b hb) hhigh
  · exact toInt_castS16_sub_half hb hhalf (hsign b hb) hlow

/-! ## The conversions -/

theorem toInt_floatS16ToS16_value {v : Float32} {a : ℚ} (ha : value v = some a) :
    (floatS16ToS16 v).toInt = roundS16 (saturate a) :=
  toInt_floatS16ToS16_of_clamped (clampS16_value ha) (saturate_bounds a).1 (saturate_bounds a).2

theorem toInt_floatToS16_value {v : Float32} {a : ℚ} (ha : value v = some a) :
    (floatToS16 v).toInt = roundS16 (saturate (a * 32768)) := by
  have hbounds := saturate_bounds (a * 32768)
  rw [floatToS16_eq]
  exact toInt_floatS16ToS16_of_clamped (clampS16_scaled ha) hbounds.1 hbounds.2

theorem roundS16_intCast (n : ℤ) : roundS16 n = n := by
  have hslip : ∀ m : ℤ, (m : ℚ) ≠ slip := by
    intro m heq
    have hround := congrArg roundAway heq
    rw [roundAway_intCast, roundAway_slip] at hround
    rw [hround] at heq
    exact absurd heq.symm (by exact_mod_cast slip_pos.ne')
  have hminus : (n : ℚ) ≠ -slip := by
    intro heq
    apply hslip (-n)
    rw [Int.cast_neg, heq, neg_neg]
  rw [roundS16, if_neg (hslip n), if_neg hminus, roundAway_intCast]

theorem toInt_floatS16ToS16_infinity {v : Float32} :
    (v.toModel.unpack = .infinity .positive → (floatS16ToS16 v).toInt = 32767) ∧
      (v.toModel.unpack = .infinity .negative → (floatS16ToS16 v).toInt = -32768) := by
  constructor
  · intro hv
    rw [toInt_floatS16ToS16_of_clamped (clampS16_infinity.1 hv) (by norm_num) le_rfl]
    exact roundS16_intCast 32767
  · intro hv
    have hround := roundS16_intCast (-32768)
    push_cast at hround
    rw [toInt_floatS16ToS16_of_clamped (clampS16_infinity.2 hv) le_rfl (by norm_num), hround]

theorem toInt_floatToS16_infinity {v : Float32} :
    (v.toModel.unpack = .infinity .positive → (floatToS16 v).toInt = 32767) ∧
      (v.toModel.unpack = .infinity .negative → (floatToS16 v).toInt = -32768) := by
  rw [floatToS16_eq]
  constructor
  · intro hv
    exact toInt_floatS16ToS16_infinity.1 (mul_infinity hv value_scale (by norm_num))
  · intro hv
    exact toInt_floatS16ToS16_infinity.2 (mul_infinity hv value_scale (by norm_num))

/-- **The order** of numbers is kept by the slip, because there are none behind it. -/
theorem roundS16_mono {a b : ℚ} (ha : a ∈ points) (hb : b ∈ points) (h : a ≤ b) :
    roundS16 a ≤ roundS16 b := by
  have hpos := slip_pos
  have habove : ∀ c ∈ points, slip < c → 1 ≤ roundS16 c := by
    intro c hc hlt
    have hfine : 1 / 2 - 2 ^ (-24 : ℤ) < c := lt_trans (by norm_num [slip]) hlt
    rcases points_near_half hc hfine with heq | hhalf
    · exact absurd heq hlt.ne'
    · rw [roundS16, if_neg hlt.ne', if_neg (by linarith), roundAway, if_pos (by linarith),
        Int.le_floor]
      push_cast
      linarith
  have hslip : roundS16 slip = 1 := if_pos rfl
  have hminus : roundS16 (-slip) = -1 := by rw [roundS16_neg, hslip]
  rcases h.eq_or_lt with rfl | hlt
  · exact le_rfl
  · by_cases haslip : a = slip
    · rw [haslip, hslip]
      exact habove b hb (haslip ▸ hlt)
    · by_cases hbslip : b = -slip
      · have hopposite := habove (-a) (neg_mem_grid ha) (by linarith)
        rw [roundS16_neg] at hopposite
        rw [hbslip, hminus]
        omega
      · -- the slip is away from zero, to the right on this side and to the left on the other
        have hleft : roundS16 a ≤ roundAway a := by
          by_cases heq : a = -slip
          · rw [heq, hminus, roundAway_neg, roundAway_slip]
            decide
          · rw [roundS16, if_neg haslip, if_neg heq]
        have hright : roundAway b ≤ roundS16 b := by
          by_cases heq : b = slip
          · rw [heq, hslip, roundAway_slip]
            decide
          · rw [roundS16, if_neg heq, if_neg hbslip]
        exact hleft.trans ((roundAway_mono h).trans hright)

theorem floatToS16_mono_binary32 {v w : Float32} (h : v < w) :
    (floatToS16 v).toInt ≤ (floatToS16 w).toInt := by
  have hlt := h
  rw [lt_iff, unpacked_lt_iff] at hlt
  rcases hv : value v with - | a
  · rcases none_cases hv with hnan | ⟨s, hs⟩
    · exact absurd hnan hlt.1
    · cases s with
      | positive =>
          rw [hs] at hlt
          exact absurd hlt.2.2 (not_rankLt_infinity _).2
      | negative =>
          rw [toInt_floatToS16_infinity.2 hs]
          exact Int16.le_toInt _
  · rcases above_cases hv h with ⟨b, hb, hab⟩ | hinf
    · rw [toInt_floatToS16_value hv, toInt_floatToS16_value hb]
      apply roundS16_mono (value_mem_points (clampS16_scaled hv))
        (value_mem_points (clampS16_scaled hb))
      exact max_le_max_right _ (min_le_min_right _ (by linarith))
    · rw [toInt_floatToS16_infinity.1 hinf]
      exact Int16.toInt_le _

/-- Clamping to the range of Float before scaling does not change the sample of S16. -/
theorem floatToS16_two_steps_binary32 {v : Float32} (hv : v.toModel.unpack ≠ .notANumber) :
    floatToS16 v = floatS16ToS16 (floatToFloatS16 v) := by
  have hminus : value (-One.one : Float32) = some (-1) := value_neg value_one
  have hscaled : floatToFloatS16 v = stdMax (stdMin v One.one) (-One.one) * 32768.0 := rfl
  have hcast : ∀ w : Float32, floatS16ToS16 (w * 32768.0) = floatToS16 w := fun w => rfl
  apply Int16.toInt.inj
  rw [hscaled, hcast]
  rcases hvalue : value v with - | a
  · rcases none_cases hvalue with hnan | ⟨s, hs⟩
    · exact absurd hnan hv
    · cases s with
      | positive =>
          have hmin : stdMin v One.one = One.one := if_pos ((lt_infinity value_one).1 hs)
          have hone := stdMax_value value_one hminus
          have hround := roundS16_intCast 32767
          rw [toInt_floatToS16_infinity.1 hs, hmin, toInt_floatToS16_value hone]
          norm_num [saturate] at hround ⊢
          exact hround.symm
      | negative =>
          have hmin : stdMin v One.one = v :=
            if_neg (asymm_of (· < ·) ((lt_infinity value_one).2 hs))
          have hmax : stdMax v (-One.one) = -One.one := if_pos ((lt_infinity hminus).2 hs)
          have hround := roundS16_intCast (-32768)
          rw [toInt_floatToS16_infinity.2 hs, hmin, hmax, toInt_floatToS16_value hminus]
          norm_num [saturate] at hround ⊢
          exact hround.symm
  · have hclamp := clamp_floatToFloatS16 a
    have hlit : (32768.0 : ℚ) = 32768 := by norm_num
    simp only [floatToFloatS16, stdMin_rat, stdMax_rat, hlit] at hclamp
    rw [toInt_floatToS16_value hvalue,
      toInt_floatToS16_value (stdMax_value (stdMin_value hvalue value_one) hminus), saturate,
      saturate, hclamp]

/-! ## Round trips -/

theorem saturate_toInt (v : Int16) : saturate v.toInt = v.toInt := by
  have hlow : (-32768 : ℚ) ≤ v.toInt := by exact_mod_cast v.le_toInt
  have hhigh : (v.toInt : ℚ) ≤ 32767 := by exact_mod_cast v.toInt_le
  rw [saturate, min_eq_left hhigh, max_eq_left hlow]

theorem abs_toInt_lt (v : Int16) : |v.toInt| < 2 ^ 23 := by
  have hlow : -32768 ≤ v.toInt := v.le_toInt
  have hhigh : v.toInt ≤ 32767 := v.toInt_le
  rw [abs_lt]
  omega

theorem floatS16ToS16_ofInt_binary32 (v : Int16) :
    floatS16ToS16 (FloatOps.ofInt v.toInt : Float32) = v := by
  have hvalue : value (FloatOps.ofInt v.toInt : Float32) = some (v.toInt : ℚ) :=
    value_ofInt (abs_toInt_lt v)
  apply Int16.toInt.inj
  rw [toInt_floatS16ToS16_value hvalue, saturate_toInt, roundS16_intCast]

/-- The scaled sample has no more bits than the sample. -/
theorem value_s16ToFloat (v : Int16) :
    value (s16ToFloat v : Float32) = some ((v.toInt : ℚ) * 2 ^ (-15 : ℤ)) := by
  have hsample : value (FloatOps.ofInt v.toInt : Float32) = some (v.toInt : ℚ) :=
    value_ofInt (abs_toInt_lt v)
  apply (rounds_mul hsample value_scaling).exact
  · exact mem_grid ((abs_toInt_lt v).trans (by decide)) (by decide)
  · have hcast : |(v.toInt : ℚ)| < 2 ^ 23 := by exact_mod_cast abs_toInt_lt v
    rw [abs_mul, abs_of_pos (by positivity : (0 : ℚ) < 2 ^ (-15 : ℤ))]
    exact lt_of_lt_of_le (mul_lt_mul_of_pos_right hcast (by positivity)) (by norm_num)

theorem floatToS16_s16ToFloat_binary32 (v : Int16) : floatToS16 (s16ToFloat v : Float32) = v := by
  have hscaled : (v.toInt : ℚ) * 2 ^ (-15 : ℤ) * 32768 = v.toInt := by
    rw [mul_assoc]
    norm_num
  apply Int16.toInt.inj
  rw [toInt_floatToS16_value (value_s16ToFloat v), hscaled, saturate_toInt, roundS16_intCast]

/-- **Float, FloatS16 and back**: the sample is clamped to the range of Float, and no bit of it
is lost. -/
theorem value_floatS16ToFloat {v : Float32} {a : ℚ} (ha : value v = some a) :
    value (floatS16ToFloat (floatToFloatS16 v)) = some (max (min a 1) (-1)) := by
  obtain ⟨c, hc⟩ : ∃ c, c = max (min a 1) (-1) := ⟨_, rfl⟩
  have hlow : -1 ≤ c := hc ▸ le_max_right _ _
  have hhigh : c ≤ 1 := hc ▸ max_le (min_le_right _ _) (by norm_num)
  have hclamped : value (stdMax (stdMin v One.one) (-One.one)) = some c :=
    hc ▸ stdMax_value (stdMin_value ha value_one) (value_neg value_one)
  have hmem := value_mem_points hclamped
  -- scaling with a power of two is exact in both directions
  have hscaled : value (floatToFloatS16 v) = some (c * 32768) := by
    refine (rounds_mul hclamped value_scale).exact (mul_scale_mem_points hmem) ?_
    rw [abs_mul, abs_of_pos (by norm_num : (0 : ℚ) < 32768)]
    exact lt_of_le_of_lt (mul_le_mul_of_nonneg_right (abs_le.mpr ⟨hlow, hhigh⟩) (by norm_num))
      (by norm_num)
  have hinside : max (min (c * 32768) 32768) (-32768) = c * 32768 := by
    rw [min_eq_left (by linarith), max_eq_left (by linarith)]
  have hkept := stdMax_value (stdMin_value hscaled value_scale) value_lower
  rw [hinside] at hkept
  have hback := rounds_mul hkept value_scaling
  have hsame : c * 32768 * 2 ^ (-15 : ℤ) = c := by
    rw [mul_assoc]
    norm_num
  rw [hsame] at hback
  rw [← hc]
  exact hback.exact hmem (lt_of_le_of_lt (abs_le.mpr ⟨hlow, hhigh⟩) (by norm_num))

/-- The array versions give every array of samples in the range of Float back. -/
theorem floatS16ToFloats_floatToFloatS16s {src : List Float32}
    (hsrc : ∀ v ∈ src, ∃ a, value v = some a ∧ |a| ≤ 1) :
    (floatS16ToFloats (floatToFloatS16s src)).map value = src.map value := by
  rw [floatS16ToFloats, floatToFloatS16s, List.map_map, List.map_map]
  apply List.map_congr_left
  intro v hv
  rcases hsrc v hv with ⟨a, ha, hsmall⟩
  rcases abs_le.mp hsmall with ⟨hlow, hhigh⟩
  have hback := value_floatS16ToFloat ha
  rw [min_eq_left hhigh, max_eq_left hlow] at hback
  exact hback.trans ha.symm

/-! ## The nearest integer -/

/-- Clamping does not touch what is inside of the bounds. -/
theorem eq_of_saturate {x c : ℚ} (h : saturate x = c) (hlow : -32768 < c) (hhigh : c < 32767) :
    x = c := by
  rw [← h] at hlow hhigh ⊢
  rcases lt_max_iff.mp hlow with hmin | hirrefl
  · rcases lt_min_iff.mp hmin with ⟨hx, -⟩
    have hless := lt_of_le_of_lt (le_max_left _ _) hhigh
    rcases min_lt_iff.mp hless with hx' | hirrefl
    · rw [saturate, min_eq_left hx'.le, max_eq_left hx.le]
    · exact absurd hirrefl (lt_irrefl _)
  · exact absurd hirrefl (lt_irrefl _)

theorem roundS16_saturate {x : ℚ} (h : |x| ≠ slip) :
    roundS16 (saturate x) = max (min (roundAway x) 32767) (-32768) := by
  have hpos := slip_pos
  have hsmall : slip < 1 := by norm_num [slip]
  have hplus : saturate x ≠ slip := by
    intro heq
    apply h
    rw [eq_of_saturate heq (by linarith) (by linarith), abs_of_pos hpos]
  have hminus : saturate x ≠ -slip := by
    intro heq
    apply h
    rw [eq_of_saturate heq (by linarith) (by linarith), abs_neg, abs_of_pos hpos]
  have hclamp := roundAway_clamp x (-32768) 32767
  push_cast at hclamp
  rw [roundS16, if_neg hplus, if_neg hminus, saturate, hclamp]

/-- At the slip the sample becomes plus or minus one. -/
theorem roundS16_of_abs {x : ℚ} (h : |x| = slip) : roundS16 (saturate x) = SignType.sign x := by
  have hpos := slip_pos
  have hsmall : slip < 1 := by norm_num [slip]
  have hinside : saturate x = x := by
    rcases abs_le.mp h.le with ⟨hlow, hhigh⟩
    rw [saturate, min_eq_left (by linarith), max_eq_left (by linarith)]
  rw [hinside]
  rcases (abs_eq hpos.le).mp h with rfl | rfl
  · rw [sign_pos hpos, roundS16, if_pos rfl]
    rfl
  · rw [sign_neg (by linarith), roundS16_neg, roundS16, if_pos rfl]
    rfl

/-- **The conversions to S16** in binary32. -/
theorem floatToS16_binary32 :
    (∀ (v : Float32) (a : ℚ), value v = some a → |32768 * a| ≠ 1 / 2 - 2 ^ (-25 : ℤ) →
      ∃ n : ℤ, IsNearestAway (32768 * a) n ∧
        (floatToS16 v).toInt = max (min n 32767) (-32768)) ∧
    (∀ (v : Float32) (a : ℚ), value v = some a → |32768 * a| = 1 / 2 - 2 ^ (-25 : ℤ) →
      (floatToS16 v).toInt = SignType.sign a) ∧
    (∀ v : Float32, (v.toModel.unpack = .infinity .positive → (floatToS16 v).toInt = 32767) ∧
      (v.toModel.unpack = .infinity .negative → (floatToS16 v).toInt = -32768)) ∧
    (∀ v w : Float32, v < w → (floatToS16 v).toInt ≤ (floatToS16 w).toInt) ∧
    (∀ v : Float32, v.toModel.unpack ≠ .notANumber →
      floatToS16 v = floatS16ToS16 (floatToFloatS16 v)) ∧
    (∀ src : List Int16, floatToS16s (s16ToFloats src : List Float32) = src) ∧
    ∀ src : List Int16, floatS16ToS16s (s16ToFloatS16s src : List Float32) = src := by
  refine ⟨?_, ?_, ?_, ?_, ?_, ?_, ?_⟩
  · intro v a ha hslip
    refine ⟨_, isNearestAway_roundAway _, ?_⟩
    rw [toInt_floatToS16_value ha, mul_comm a, roundS16_saturate hslip]
  · intro v a ha hslip
    have hsign : SignType.sign (32768 * a) = SignType.sign a := by
      rw [sign_mul, sign_pos (by norm_num), one_mul]
    rw [toInt_floatToS16_value ha, mul_comm a, roundS16_of_abs hslip, hsign]
  · intro v
    exact toInt_floatToS16_infinity
  · intro v w h
    exact floatToS16_mono_binary32 h
  · intro v hv
    exact floatToS16_two_steps_binary32 hv
  · intro src
    unfold floatToS16s s16ToFloats
    rw [List.map_map]
    exact List.map_id'' floatToS16_s16ToFloat_binary32 src
  · intro src
    unfold floatS16ToS16s s16ToFloatS16s
    rw [List.map_map]
    exact List.map_id'' floatS16ToS16_ofInt_binary32 src

end AudioProc.AudioUtil
