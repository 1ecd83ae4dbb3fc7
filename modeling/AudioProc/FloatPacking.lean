import AudioProc.FloatRounding
import Mathlib

/-!
# Operations and packing in the floating-point model

The sum and the product of two numbers are rounded to a nearest number of the format, and a
canonical result comes back from the bits that it is packed into, unless it is too large: then
it comes back as an infinity.

* `add_spec`, `mul_spec`: canonical and nearest to the exact sum and product;
* `unpack_pack`: what is read back of a canonical result;
* `canonical_unpack`: whatever the bits are, what they stand for is canonical.
-/

namespace AudioProc.FloatRounding

open Float.Model Float.Model.UnpackedFloat

variable {spec : Format} {m : ℕ} {e : ℤ}

/-! ## Sums -/

theorem log2_mul_two_pow (hm : m ≠ 0) (k : ℕ) : (m * 2 ^ k).log2 = m.log2 + k := by
  have hne : m * 2 ^ k ≠ 0 := Nat.mul_ne_zero hm (Nat.two_pow_pos k).ne'
  rw [Nat.log2_eq_iff hne, pow_add, Nat.add_right_comm, pow_add]
  exact ⟨Nat.mul_le_mul_right _ (Nat.log2_self_le hm),
    Nat.mul_lt_mul_of_pos_right Nat.lt_log2_self (Nat.two_pow_pos k)⟩

/-- Lowering the exponent leaves the value alone, and how far the leading bit reaches. -/
theorem decreaseExponent_spec (m : ℕ) (e t : ℤ) :
    (decreaseExponent m e t).2 = min e t ∧
      ((decreaseExponent m e t).1 : ℚ) * 2 ^ (decreaseExponent m e t).2 = m * 2 ^ e ∧
      (0 < m → 0 < (decreaseExponent m e t).1 ∧
        totalExponent (decreaseExponent m e t).1 (decreaseExponent m e t).2 =
          totalExponent m e) := by
  obtain ⟨k, hk⟩ : ∃ k, k = (e - t).toNat := ⟨_, rfl⟩
  have hpair : decreaseExponent m e t = (m * 2 ^ k, e - k) := by
    rw [decreaseExponent, ← hk, Nat.shiftLeft_eq]
  rw [hpair]
  refine ⟨?_, ?_, ?_⟩
  · show e - (k : ℤ) = min e t
    omega
  · have hexponent : e = k + (e - k) := by ring
    conv_rhs => rw [hexponent, zpow_add₀ two_ne_zero, zpow_natCast]
    push_cast
    ring
  · intro hm
    refine ⟨Nat.mul_pos hm (Nat.two_pow_pos k), ?_⟩
    show ((m * 2 ^ k).log2 : ℤ) + 1 + (e - k) = m.log2 + 1 + e
    rw [log2_mul_two_pow hm.ne']
    push_cast
    ring

theorem round_spec (s : Sign) (hm : 0 < m) :
    Canonical spec (round spec s m e) ∧
      ∃ y, value (round spec s m e) = some (signed s y) ∧
        Nearest (numbers spec) (m * 2 ^ e) y := by
  obtain ⟨t, ht⟩ : ∃ t, t = spec.targetExponent (totalExponent m e) := ⟨_, rfl⟩
  rcases decreaseExponent_spec m e t with ⟨hexponent, hvalue, hkeep⟩
  rcases hkeep hm with ⟨hpos, htotal⟩
  have hlow : (decreaseExponent m e t).2 ≤ spec.targetExponent
      (totalExponent (decreaseExponent m e t).1 (decreaseExponent m e t).2) := by
    rw [htotal, ← ht, hexponent]
    exact min_le_right _ _
  have hround : round spec s m e = roundWithAccuracy spec s (decreaseExponent m e t).1
      (decreaseExponent m e t).2 .exact := by
    rw [ht]
    rfl
  rw [hround, ← hvalue]
  exact roundWithAccuracy_spec s hpos hlow

theorem normalize_spec (n : ℤ) (zeroSign : Sign) :
    Canonical spec (UnpackedFloat.normalize spec n e zeroSign) ∧
      ∃ y, value (UnpackedFloat.normalize spec n e zeroSign) = some y ∧
        Nearest (numbers spec) (n * 2 ^ e) y := by
  rcases lt_trichotomy n 0 with hneg | rfl | hpos
  · have hcompare : compare n 0 = .lt := compare_lt_iff_lt.mpr hneg
    rcases @round_spec spec (-n).toNat e .negative (by omega) with ⟨hcanonical, y, hy, hnear⟩
    have hresult : UnpackedFloat.normalize spec n e zeroSign =
        round spec .negative (-n).toNat e := by
      rw [UnpackedFloat.normalize, hcompare]
    have hcast : (((-n).toNat : ℕ) : ℚ) = -n := by
      have hint : (((-n).toNat : ℕ) : ℤ) = -n := Int.toNat_of_nonneg (by omega)
      exact_mod_cast congrArg (Int.cast : ℤ → ℚ) hint
    rw [hresult]
    refine ⟨hcanonical, _, hy, ?_⟩
    rw [hcast, neg_mul] at hnear
    have hback := nearest_signed (s := .negative) hnear
    rwa [show signed .negative (-((n : ℚ) * 2 ^ e)) = n * 2 ^ e from neg_neg _] at hback
  · have hresult : UnpackedFloat.normalize spec 0 e zeroSign = .zero zeroSign := rfl
    rw [hresult, Int.cast_zero, zero_mul]
    exact ⟨trivial, 0, rfl, Nearest.self zero_mem_grid⟩
  · have hcompare : compare n 0 = .gt := compare_gt_iff_gt.mpr hpos
    rcases @round_spec spec n.toNat e .positive (by omega) with ⟨hcanonical, y, hy, hnear⟩
    have hresult : UnpackedFloat.normalize spec n e zeroSign =
        round spec .positive n.toNat e := by
      rw [UnpackedFloat.normalize, hcompare]
    have hcast : ((n.toNat : ℕ) : ℚ) = n := by
      have hint : ((n.toNat : ℕ) : ℤ) = n := Int.toNat_of_nonneg hpos.le
      exact_mod_cast congrArg (Int.cast : ℤ → ℚ) hint
    rw [hresult]
    rw [hcast] at hnear
    exact ⟨hcanonical, _, hy, hnear⟩

/-- The value of a canonical number is a number of the format. -/
theorem value_mem_numbers {f : UnpackedFloat} {a : ℚ} (hf : Canonical spec f)
    (ha : value f = some a) : a ∈ numbers spec := by
  cases f with
  | infinity s => exact absurd ha nofun
  | notANumber => exact absurd ha nofun
  | zero s =>
      rcases Option.some.inj ha with rfl
      exact zero_mem_grid
  | finite s m e hm =>
      rcases Option.some.inj ha with rfl
      rcases (canonical_iff hm).mp hf with ⟨hless, hmin, -⟩
      have hint : |(m : ℤ)| < 2 ^ spec.mantissaBits := by
        rw [abs_of_nonneg (Int.natCast_nonneg m)]
        exact_mod_cast hless
      have hmem := mem_grid hint hmin
      rw [Int.cast_natCast] at hmem
      cases s with
      | positive => exact hmem
      | negative => exact neg_mem_grid hmem

theorem signed_apply (s : Sign) (m : ℕ) (x : ℚ) :
    ((s.apply (m : ℤ) : ℤ) : ℚ) * x = signed s (m * x) := by
  cases s with
  | positive => rfl
  | negative =>
      show ((-(m : ℤ) : ℤ) : ℚ) * x = -(m * x)
      push_cast
      exact neg_mul _ _

/-- **Sums** are rounded to a nearest number. -/
theorem add_spec {f g : UnpackedFloat} {a b : ℚ} (hf : Canonical spec f) (hg : Canonical spec g)
    (ha : value f = some a) (hb : value g = some b) :
    Canonical spec (add spec f g) ∧
      ∃ y, value (add spec f g) = some y ∧ Nearest (numbers spec) (a + b) y := by
  have hfmem := value_mem_numbers hf ha
  have hgmem := value_mem_numbers hg hb
  cases f with
  | infinity s => exact absurd ha nofun
  | notANumber => exact absurd ha nofun
  | zero s =>
      rcases Option.some.inj ha with rfl
      rw [zero_add]
      cases g with
      | infinity s' => exact absurd hb nofun
      | notANumber => exact absurd hb nofun
      | zero s' =>
          rcases Option.some.inj hb with rfl
          have hzero : ∃ t, add spec (.zero s) (.zero s') = .zero t := by
            cases s <;> cases s' <;> exact ⟨_, rfl⟩
          rcases hzero with ⟨t, ht⟩
          rw [ht]
          exact ⟨trivial, 0, rfl, Nearest.self zero_mem_grid⟩
      | finite s' m e hm => exact ⟨hg, b, hb, Nearest.self hgmem⟩
  | finite s m e hm =>
      cases g with
      | infinity s' => exact absurd hb nofun
      | notANumber => exact absurd hb nofun
      | zero s' =>
          rcases Option.some.inj hb with rfl
          rw [add_zero]
          exact ⟨hf, a, ha, Nearest.self hfmem⟩
      | finite s' m' e' hm' =>
          rcases Option.some.inj ha with rfl
          rcases Option.some.inj hb with rfl
          rcases decreaseExponent_spec m e (min e e') with ⟨hexponent, hvalue, -⟩
          rcases decreaseExponent_spec m' e' (min e e') with ⟨hexponent', hvalue', -⟩
          rw [hexponent, ← min_assoc, min_self] at hvalue
          rw [hexponent', min_comm e e', ← min_assoc, min_self, min_comm e' e] at hvalue'
          have hsum : signed s (m * 2 ^ e) + signed s' (m' * 2 ^ e') =
              ((s.apply ((decreaseExponent m e (min e e')).1 : ℤ) +
                s'.apply ((decreaseExponent m' e' (min e e')).1 : ℤ) : ℤ) : ℚ) *
                  2 ^ min e e' := by
            rw [Int.cast_add, add_mul, signed_apply, signed_apply, hvalue, hvalue']
          rw [hsum]
          exact normalize_spec _ _

/-! ## Products -/

theorem abs_signed {s : Sign} {x : ℚ} (hx : 0 ≤ x) : |signed s x| = x := by
  cases s with
  | positive => exact abs_of_nonneg hx
  | negative => exact (abs_neg x).trans (abs_of_nonneg hx)

theorem signed_mul (s s' : Sign) (x y : ℚ) :
    signed s x * signed s' y = signed (s * s') (x * y) := by
  cases s <;> cases s'
  · exact neg_mul_neg x y
  · exact neg_mul x y
  · exact mul_neg x y
  · rfl

theorem minExponent_nonpos (spec : Format) : spec.minExponent ≤ 0 := by
  have hmantissa := spec.hm
  have hpow : (1 : ℤ) ≤ 2 ^ (spec.exponentBits - 1) := one_le_pow₀ (by norm_num)
  unfold Format.minExponent Format.mantissaBits
  omega

/-- The exact product of two canonical numbers has an exponent that is low enough. -/
theorem mul_exponent_le {s s' : Sign} {m' : ℕ} {e' : ℤ} (hm : 0 < m) (hm' : 0 < m')
    (hf : Canonical spec (.finite s m e hm)) (hg : Canonical spec (.finite s' m' e' hm')) :
    e + e' ≤ spec.targetExponent (totalExponent (m * m') (e + e')) := by
  have hmin := minExponent_nonpos spec
  have hbits := mantissaBits_pos spec
  rcases targetExponent_cases spec (m * m') (e + e') with ⟨hlow, htop, -⟩
  have hlog : ∀ n ≤ m * m', n ≠ 0 → n.log2 ≤ (m * m').log2 := by
    intro n hn hne
    exact (Nat.le_log2 (Nat.mul_pos hm hm').ne').mpr ((Nat.log2_self_le hne).trans hn)
  have hfirst := hlog m (Nat.le_mul_of_pos_right m hm') hm.ne'
  have hsecond := hlog m' (Nat.le_mul_of_pos_left m' hm) hm'.ne'
  unfold Canonical Format.targetExponent totalExponent at *
  omega

/-- **Products** are rounded to a nearest number. -/
theorem mul_spec {f g : UnpackedFloat} {a b : ℚ} (hf : Canonical spec f) (hg : Canonical spec g)
    (ha : value f = some a) (hb : value g = some b) :
    Canonical spec (mul spec f g) ∧
      ∃ y, value (mul spec f g) = some y ∧ Nearest (numbers spec) (a * b) y := by
  have hzero : ∀ s, Canonical spec (.zero s) ∧
      ∃ y, value (.zero s) = some y ∧ Nearest (numbers spec) 0 y :=
    fun _ => ⟨trivial, 0, rfl, Nearest.self zero_mem_grid⟩
  cases f with
  | infinity s => exact absurd ha nofun
  | notANumber => exact absurd ha nofun
  | zero s =>
      rcases Option.some.inj ha with rfl
      rw [zero_mul]
      cases g with
      | infinity s' => exact absurd hb nofun
      | notANumber => exact absurd hb nofun
      | zero s' => exact hzero _
      | finite s' m' e' hm' => exact hzero _
  | finite s m e hm =>
      cases g with
      | infinity s' => exact absurd hb nofun
      | notANumber => exact absurd hb nofun
      | zero s' =>
          rcases Option.some.inj hb with rfl
          rw [mul_zero]
          exact hzero _
      | finite s' m' e' hm' =>
          rcases Option.some.inj ha with rfl
          rcases Option.some.inj hb with rfl
          rcases roundWithAccuracy_spec (s * s') (Nat.mul_pos hm hm')
            (mul_exponent_le hm hm' hf hg) with ⟨hcanonical, y, hy, hnear⟩
          refine ⟨hcanonical, _, hy, ?_⟩
          have hproduct : (m : ℚ) * 2 ^ e * (m' * 2 ^ e') = ((m * m' : ℕ) : ℚ) * 2 ^ (e + e') := by
            rw [zpow_add₀ two_ne_zero]
            push_cast
            ring
          rw [signed_mul, hproduct]
          exact nearest_signed hnear

/-! ## Packing -/

/-- The first power of two that is too large for the format. -/
def limit (spec : Format) : ℚ := 2 ^ (spec.exponentBias + 1)

theorem two_pow_exponentBits (spec : Format) :
    2 ^ spec.exponentBits = 2 * spec.exponentBias + 2 := by
  have hpos : 0 < 2 ^ (spec.exponentBits - 1) := Nat.two_pow_pos _
  have hdouble : 2 ^ spec.exponentBits = 2 * 2 ^ (spec.exponentBits - 1) := by
    rw [← pow_succ', Nat.sub_add_cancel spec.he]
  unfold Format.exponentBias
  omega

theorem minExponent_eq (spec : Format) :
    spec.minExponent = 1 - spec.exponentBias - spec.mantissaBitsWithoutImplicit := by
  have hpos : 0 < 2 ^ (spec.exponentBits - 1) := Nat.two_pow_pos _
  have hcast : ((2 ^ (spec.exponentBits - 1) : ℕ) : ℤ) = 2 ^ (spec.exponentBits - 1) := by
    push_cast
    rfl
  unfold Format.minExponent Format.exponentBias Format.mantissaBits
  omega

/-- A canonical number is below the limit if and only if its exponent is not too large. -/
theorem lt_limit_iff {s : Sign} (hspec : 0 < spec.exponentBias) (hm : 0 < m)
    (hf : Canonical spec (.finite s m e hm)) :
    (m : ℚ) * 2 ^ e < limit spec ↔ e + spec.mantissaBitsWithoutImplicit ≤ spec.exponentBias := by
  rcases (canonical_iff hm).mp hf with ⟨htop, hmin, hlow⟩
  have hbits : spec.mantissaBits - 1 = spec.mantissaBitsWithoutImplicit :=
    Nat.add_sub_cancel_left _ _
  constructor
  · intro hless
    rcases hlow with hlowest | hfull
    · have heq := minExponent_eq spec
      omega
    · by_contra hlarge
      have hcast : (2 : ℚ) ^ spec.mantissaBitsWithoutImplicit ≤ m := by
        rw [← hbits]
        exact_mod_cast hfull
      have hlimit : limit spec ≤ 2 ^ spec.mantissaBitsWithoutImplicit * 2 ^ e := by
        rw [limit, ← zpow_natCast, ← zpow_natCast, ← zpow_add₀ two_ne_zero]
        exact zpow_le_zpow_right₀ one_le_two (by push_cast; omega)
      exact absurd (hlimit.trans (mul_le_mul_of_nonneg_right hcast (by positivity)))
        (not_le.mpr hless)
  · intro hsmall
    have hcast : (m : ℚ) < 2 ^ spec.mantissaBits := by exact_mod_cast htop
    calc (m : ℚ) * 2 ^ e < 2 ^ spec.mantissaBits * 2 ^ e :=
          mul_lt_mul_of_pos_right hcast (by positivity)
      _ = 2 ^ (spec.mantissaBits + e) := by rw [zpow_add₀ two_ne_zero, zpow_natCast]
      _ ≤ 2 ^ ((spec.exponentBias + 1 : ℕ) : ℤ) := by
          refine zpow_le_zpow_right₀ one_le_two ?_
          unfold Format.mantissaBits
          push_cast
          omega
      _ = limit spec := zpow_natCast _ _

@[simp] theorem unpackSign_packComponents (s : Sign) (exponent : BitVec spec.exponentBits)
    (mantissa : BitVec spec.mantissaBitsWithoutImplicit) :
    unpackSign (packComponents spec s exponent mantissa) = s.toBitVec := by
  ext i hi
  have hzero : i = 0 := by omega
  subst hzero
  simp [unpackSign, packComponents, BitVec.getLsbD_eq_getElem, BitVec.getLsbD_append,
    BitVec.getElem_append]

@[simp] theorem ofBitVec_toBitVec (s : Sign) : Sign.ofBitVec s.toBitVec = s := by
  cases s <;> rfl

/-- The exponent that stands for infinities and NaN. -/
theorem neg_one_toNat (spec : Format) :
    (-BitVec.ofNat spec.exponentBits 1).toNat = 2 ^ spec.exponentBits - 1 := by
  rw [BitVec.neg_one_eq_allOnes, BitVec.toNat_allOnes]

theorem zero_ne_neg_one (spec : Format) :
    BitVec.ofNat spec.exponentBits 0 ≠ -BitVec.ofNat spec.exponentBits 1 := by
  intro h
  have hnat := congrArg BitVec.toNat h
  have hpow := two_pow_exponentBits spec
  rw [neg_one_toNat, BitVec.toNat_zero] at hnat
  omega

@[simp] theorem unpack_packedZero (spec : Format) (s : Sign) :
    UnpackedFloat.unpack spec (packedZero spec s) = .zero s := by
  simp [UnpackedFloat.unpack, packedZero, spec.he.ne']

@[simp] theorem unpack_packedInfinity (spec : Format) (s : Sign) :
    UnpackedFloat.unpack spec (packedInfinity spec s) = .infinity s := by
  simp [UnpackedFloat.unpack, packedInfinity]

@[simp] theorem unpack_packedNaN (spec : Format) :
    UnpackedFloat.unpack spec (packedNaN spec) = .notANumber := by
  have hne : BitVec.ofNat spec.mantissaBitsWithoutImplicit 1 <<<
      (spec.mantissaBitsWithoutImplicit - 1) ≠ BitVec.ofNat spec.mantissaBitsWithoutImplicit 0 := by
    intro h
    have hnat := congrArg BitVec.toNat h
    have hmantissa := spec.hm
    have hless : 2 ^ (spec.mantissaBitsWithoutImplicit - 1) <
        2 ^ spec.mantissaBitsWithoutImplicit :=
      Nat.pow_lt_pow_right one_lt_two (by omega)
    have hone : 1 % 2 ^ spec.mantissaBitsWithoutImplicit = 1 :=
      Nat.mod_eq_of_lt (Nat.one_lt_two_pow hmantissa.ne')
    rw [BitVec.toNat_shiftLeft, BitVec.toNat_zero, BitVec.toNat_ofNat, hone, Nat.shiftLeft_eq,
      one_mul, Nat.mod_eq_of_lt hless] at hnat
    exact (Nat.two_pow_pos _).ne' hnat
  simp [UnpackedFloat.unpack, packedNaN, hne]

theorem toNat_implicit {n : ℕ} (hlow : 2 ^ n ≤ m) (htop : m < 2 ^ (n + 1)) :
    (1#1 ++ BitVec.ofNat n m).toNat = m := by
  have hpow : 2 ^ (n + 1) = 2 ^ n + 2 ^ n := by rw [pow_succ, mul_two]
  have hmod : m % 2 ^ n = m - 2 ^ n := by
    rw [Nat.mod_eq_sub_mod hlow, Nat.mod_eq_of_lt (by omega)]
  have hnat : (BitVec.ofNat n m).toNat = m - 2 ^ n := (BitVec.toNat_ofNat m n).trans hmod
  rw [BitVec.toNat_append, hnat,
    ← Nat.shiftLeft_add_eq_or_of_lt (show m - 2 ^ n < 2 ^ n by omega), Nat.shiftLeft_eq]
  show 1 * 2 ^ n + (m - 2 ^ n) = m
  omega

/-- A canonical number with an exponent that fits comes back. -/
theorem unpack_pack_finite {s : Sign} (hspec : 0 < spec.exponentBias) (hm : 0 < m)
    (hf : Canonical spec (.finite s m e hm))
    (hfit : e + spec.mantissaBitsWithoutImplicit ≤ spec.exponentBias) :
    UnpackedFloat.unpack spec (UnpackedFloat.pack spec (.finite s m e hm)) = .finite s m e hm := by
  rcases (canonical_iff hm).mp hf with ⟨htop, hmin, hlow⟩
  have hpow := two_pow_exponentBits spec
  have hlowest := minExponent_eq spec
  have hbits : spec.mantissaBits = spec.mantissaBitsWithoutImplicit + 1 := Nat.add_comm _ _
  rw [hbits] at htop
  obtain ⟨biased, hbiased⟩ : ∃ biased, biased =
      (e + spec.exponentBias + spec.mantissaBitsWithoutImplicit).toNat := ⟨_, rfl⟩
  have hfits : ¬ 2 ^ spec.exponentBits ≤ biased + 1 := by omega
  unfold UnpackedFloat.pack
  simp only [← hbiased, if_neg hfits]
  by_cases hfull : 2 ^ spec.mantissaBitsWithoutImplicit ≤ m
  · -- normal
    have hlog : m.log2 + 1 = spec.mantissaBits := by
      rw [hbits, Nat.add_right_cancel_iff, Nat.log2_eq_iff hm.ne']
      exact ⟨hfull, htop⟩
    have hnat : (BitVec.ofNat spec.exponentBits biased).toNat = biased := by
      rw [BitVec.toNat_ofNat, Nat.mod_eq_of_lt (by omega)]
    have hnotInf : BitVec.ofNat spec.exponentBits biased ≠ -BitVec.ofNat spec.exponentBits 1 := by
      intro h
      have hsame := congrArg BitVec.toNat h
      rw [hnat, neg_one_toNat] at hsame
      omega
    have hnotZero : BitVec.ofNat spec.exponentBits biased ≠ BitVec.ofNat spec.exponentBits 0 := by
      intro h
      have hsame := congrArg BitVec.toNat h
      rw [hnat, BitVec.toNat_zero] at hsame
      omega
    rw [if_pos hlog]
    unfold UnpackedFloat.unpack
    simp only [unpackMantissa_packComponents, unpackExponent_packComponents,
      unpackSign_packComponents, ofBitVec_toBitVec, if_neg hnotInf, if_neg hnotZero, hnat,
      toNat_implicit hfull htop]
    congr 1
    omega
  · -- subnormal
    have hexponent : e = spec.minExponent := by
      rcases hlow with hlow | hlow
      · exact hlow
      · rw [hbits, Nat.add_sub_cancel] at hlow
        exact absurd hlow hfull
    have hlog : m.log2 + 1 ≠ spec.mantissaBits := by
      have hless := (Nat.log2_lt hm.ne').mpr (not_le.mp hfull)
      omega
    have hnat : (BitVec.ofNat spec.mantissaBitsWithoutImplicit m).toNat = m := by
      rw [BitVec.toNat_ofNat, Nat.mod_eq_of_lt (not_le.mp hfull)]
    have hnotZero : BitVec.ofNat spec.mantissaBitsWithoutImplicit m ≠
        BitVec.ofNat spec.mantissaBitsWithoutImplicit 0 := by
      intro h
      have hsame := congrArg BitVec.toNat h
      rw [hnat, BitVec.toNat_zero] at hsame
      omega
    rw [if_neg hlog]
    unfold UnpackedFloat.unpack
    simp only [unpackMantissa_packComponents, unpackExponent_packComponents,
      unpackSign_packComponents, ofBitVec_toBitVec, if_neg (zero_ne_neg_one spec), if_true,
      dif_neg hnotZero, hnat, BitVec.toNat_zero]
    congr 1
    omega

/-- One with an exponent that does not becomes an infinity. -/
theorem unpack_pack_overflow {s : Sign} (hm : 0 < m)
    (hlarge : ¬ e + spec.mantissaBitsWithoutImplicit ≤ spec.exponentBias) :
    UnpackedFloat.unpack spec (UnpackedFloat.pack spec (.finite s m e hm)) = .infinity s := by
  have hpow := two_pow_exponentBits spec
  have hover : 2 ^ spec.exponentBits ≤
      (e + spec.exponentBias + spec.mantissaBitsWithoutImplicit).toNat + 1 := by omega
  unfold UnpackedFloat.pack
  simp only [if_pos hover]
  exact unpack_packedInfinity spec s

/-- **Packing** a canonical result: it comes back if it is below the limit of the format, and as
an infinity of its sign if not. -/
theorem unpack_pack {f : UnpackedFloat} {y : ℚ} (hspec : 0 < spec.exponentBias)
    (hf : Canonical spec f) (hy : value f = some y) :
    |y| < limit spec ∧ UnpackedFloat.unpack spec (UnpackedFloat.pack spec f) = f ∨
      limit spec ≤ y ∧
        UnpackedFloat.unpack spec (UnpackedFloat.pack spec f) = .infinity .positive ∨
      y ≤ -limit spec ∧
        UnpackedFloat.unpack spec (UnpackedFloat.pack spec f) = .infinity .negative := by
  have hlimit : 0 < limit spec := pow_pos two_pos _
  cases f with
  | infinity s => exact absurd hy nofun
  | notANumber => exact absurd hy nofun
  | zero s =>
      rcases Option.some.inj hy with rfl
      left
      rw [abs_zero]
      exact ⟨hlimit, unpack_packedZero spec s⟩
  | finite s m e hm =>
      rcases Option.some.inj hy with rfl
      have habs : |signed s ((m : ℚ) * 2 ^ e)| = m * 2 ^ e := abs_signed (by positivity)
      have hiff := lt_limit_iff hspec hm hf
      by_cases hfit : e + spec.mantissaBitsWithoutImplicit ≤ spec.exponentBias
      · left
        rw [habs]
        exact ⟨hiff.mpr hfit, unpack_pack_finite hspec hm hf hfit⟩
      · right
        have hover := unpack_pack_overflow (s := s) hm hfit
        have hlarge := not_lt.mp (mt hiff.mp hfit)
        cases s with
        | positive => exact Or.inl ⟨hlarge, hover⟩
        | negative => exact Or.inr ⟨neg_le_neg hlarge, hover⟩

/-- **Bits**: whatever they are, they stand for something canonical below the limit. -/
theorem unpack_spec (hspec : 0 < spec.exponentBias) (b : BitVec spec.numBits) :
    Canonical spec (UnpackedFloat.unpack spec b) ∧
      ∀ a, value (UnpackedFloat.unpack spec b) = some a → |a| < limit spec := by
  have hpow := two_pow_exponentBits spec
  have hlowest := minExponent_eq spec
  have hbits : spec.mantissaBits = spec.mantissaBitsWithoutImplicit + 1 := Nat.add_comm _ _
  have hmantissa := (unpackMantissa b).isLt
  have hexponent := (unpackExponent b).isLt
  -- both kinds of finite numbers
  have hfinite : ∀ (s : Sign) (m : ℕ) (e : ℤ) (hm : 0 < m), Canonical spec (.finite s m e hm) →
      e + spec.mantissaBitsWithoutImplicit ≤ spec.exponentBias →
      Canonical spec (.finite s m e hm) ∧
        ∀ a, value (.finite s m e hm) = some a → |a| < limit spec := by
    intro s m e hm hcanonical hfit
    refine ⟨hcanonical, ?_⟩
    intro a ha
    rcases Option.some.inj ha with rfl
    rw [abs_signed (by positivity)]
    exact (lt_limit_iff hspec hm hcanonical).mpr hfit
  unfold UnpackedFloat.unpack
  simp only
  split_ifs with hlast hzero hfirst hzero'
  · exact ⟨trivial, nofun⟩
  · exact ⟨trivial, nofun⟩
  · refine ⟨trivial, ?_⟩
    intro a ha
    rcases Option.some.inj ha with rfl
    rw [abs_zero]
    exact pow_pos two_pos _
  · -- subnormal
    rw [hfirst, BitVec.toNat_zero]
    apply hfinite
    · rw [canonical_iff, hbits]
      refine ⟨hmantissa.trans (Nat.pow_lt_pow_right one_lt_two (Nat.lt_succ_self _)), ?_, ?_⟩ <;>
        omega
    · omega
  · -- normal
    have hne : (unpackExponent b).toNat ≠ 2 ^ spec.exponentBits - 1 := by
      intro h
      exact hlast (BitVec.eq_of_toNat_eq (h.trans (neg_one_toNat spec).symm))
    have hne' : (unpackExponent b).toNat ≠ 0 := by
      intro h
      exact hfirst (BitVec.eq_of_toNat_eq (h.trans BitVec.toNat_zero.symm))
    have hnat : (1#1 ++ unpackMantissa b).toNat =
        2 ^ spec.mantissaBitsWithoutImplicit + (unpackMantissa b).toNat := by
      rw [BitVec.toNat_append, ← Nat.shiftLeft_add_eq_or_of_lt hmantissa, Nat.shiftLeft_eq]
      exact congrArg (· + _) (one_mul _)
    apply hfinite
    · rw [canonical_iff, hbits, hnat, pow_succ, Nat.add_sub_cancel]
      refine ⟨by omega, by omega, Or.inr (Nat.le_add_right _ _)⟩
    · omega

/-- The sign bit is the sign of the number. -/
theorem unpack_sign (b : BitVec spec.numBits) {a : ℚ}
    (ha : value (UnpackedFloat.unpack spec b) = some a) :
    (unpackSign b = 0#1 → 0 ≤ a) ∧ (unpackSign b ≠ 0#1 → a ≤ 0) := by
  have hsigned : ∀ x : ℚ, 0 ≤ x → a = signed (Sign.ofBitVec (unpackSign b)) x →
      (unpackSign b = 0#1 → 0 ≤ a) ∧ (unpackSign b ≠ 0#1 → a ≤ 0) := by
    rintro x hx rfl
    constructor
    · intro hsign
      rw [Sign.ofBitVec, if_pos hsign]
      exact hx
    · intro hsign
      rw [Sign.ofBitVec, if_neg hsign]
      exact neg_nonpos.mpr hx
  unfold UnpackedFloat.unpack at ha
  simp only at ha
  split_ifs at ha with hlast hzero hfirst hzero'
  · exact absurd ha nofun
  · exact absurd ha nofun
  · rcases Option.some.inj ha with rfl
    exact ⟨fun _ => le_rfl, fun _ => le_rfl⟩
  · exact hsigned _ (by positivity) (Option.some.inj ha).symm
  · exact hsigned _ (by positivity) (Option.some.inj ha).symm

end AudioProc.FloatRounding
