import AudioProc.Nearest
import Mathlib.Algebra.Order.Field.Rat
import Mathlib.Tactic.NormNum

/-!
# Rounding in the floating-point model

What the rounding functions of Lean's model of binary floating-point arithmetic
(`Float.Model`) compute, for any format: `roundWithAccuracy`, to which its operations leave the
exact result, gives a number of the format that is nearest to it.

* `Reads`: what the mantissa, the round bit and the sticky bit say about the exact mantissa;
  every shift keeps it, and the rounded mantissa is then a nearest integer;
* `Canonical`: the exponent is the one that the format wants for the number;
* `roundWithAccuracy_spec`: canonical and nearest.
-/

namespace AudioProc.FloatRounding

open Float.Model Float.Model.UnpackedFloat

/-! ## Mantissas with a round and a sticky bit -/

/-- The mantissa is `x` without its fraction, and the two bits compare that with a half. -/
def Reads (em : ExtendedMantissa) (x : ℚ) : Prop :=
  match em.roundBit, em.stickyBit with
  | false, false => x = em.mantissa
  | false, true => em.mantissa < x ∧ 2 * x < 2 * em.mantissa + 1
  | true, false => 2 * x = 2 * em.mantissa + 1
  | true, true => 2 * em.mantissa + 1 < 2 * x ∧ x < em.mantissa + 1

section

variable {em : ExtendedMantissa} {x : ℚ}

theorem reads_exact (m : ℕ) : Reads (.ofMantissaAndAccuracy m .exact) m := rfl

/-- The bit that is shifted out becomes the round bit, what was behind it the sticky bit. -/
theorem Reads.shiftRightOne (h : Reads em (2 * x)) : Reads em.shiftRightOne x := by
  rcases em with ⟨m, round, sticky⟩
  have hparts : ((m % 2 : ℕ) : ℚ) + 2 * ((m / 2 : ℕ) : ℚ) = m := by
    exact_mod_cast Nat.mod_add_div m 2
  rcases Nat.mod_two_eq_zero_or_one m with hbit | hbit <;>
    cases round <;> cases sticky <;>
    simp only [Reads, ExtendedMantissa.shiftRightOne, hbit, Nat.cast_zero, Nat.cast_one] at * <;>
    simp only [bne_self_eq_false, Bool.or_false, Bool.or_true, Nat.reduceBneDiff] <;>
    first
      | linarith
      | (constructor <;> linarith)

theorem Reads.shiftRight (n : ℕ) (h : Reads em (2 ^ n * x)) : Reads (em >>> n) x := by
  induction n generalizing x with
  | zero =>
      rw [pow_zero, one_mul] at h
      exact h
  | succ n ih =>
      rw [pow_succ, mul_assoc] at h
      exact (ih h).shiftRightOne

theorem mantissa_shiftRight (em : ExtendedMantissa) (n : ℕ) :
    (em >>> n).mantissa = em.mantissa / 2 ^ n := by
  induction n with
  | zero => exact (Nat.div_one _).symm
  | succ n ih =>
      show (em >>> n).mantissa / 2 = _
      rw [ih, Nat.div_div_eq_div_mul, pow_succ]

theorem mantissa_le_roundedMantissa (em : ExtendedMantissa) :
    em.mantissa ≤ em.roundedMantissa ∧ em.roundedMantissa ≤ em.mantissa + 1 := by
  rcases em with ⟨m, round, sticky⟩
  have hbit := Nat.mod_lt m two_pos
  cases round <;> cases sticky <;>
    simp only [ExtendedMantissa.roundedMantissa, ExtendedMantissa.accuracy,
      Accuracy.roundToNearestEven] <;>
    omega

/-- The rounded mantissa is half a unit away at most. -/
theorem Reads.roundedMantissa_error (h : Reads em x) : 2 * |(em.roundedMantissa : ℚ) - x| ≤ 1 := by
  rcases em with ⟨m, round, sticky⟩
  have habs : ∀ r : ℚ, 2 * (r - x) ≤ 1 → 2 * (x - r) ≤ 1 → 2 * |r - x| ≤ 1 := by
    intro r hright hleft
    rcases abs_choice (r - x) with hcase | hcase <;>
      rw [hcase] <;>
      linarith
  cases round <;> cases sticky <;>
    simp only [Reads, ExtendedMantissa.roundedMantissa, ExtendedMantissa.accuracy,
      Accuracy.roundToNearestEven] at *
  · apply habs <;> linarith
  · apply habs <;> linarith [h.1, h.2]
  · -- a tie, which goes to the even mantissa
    rcases Nat.mod_two_eq_zero_or_one m with hbit | hbit <;>
      rw [hbit] <;>
      push_cast <;>
      apply habs <;>
      linarith
  · push_cast
    apply habs <;> linarith [h.1, h.2]

/-- It is a nearest integer. -/
theorem Reads.roundedMantissa_nearest (h : Reads em x) (j : ℤ) :
    |(em.roundedMantissa : ℚ) - x| ≤ |(j : ℚ) - x| := by
  have herror := h.roundedMantissa_error
  rcases eq_or_ne j em.roundedMantissa with rfl | hne
  · exact le_of_eq (by rw [Int.cast_natCast])
  · -- another integer is a unit away
    have hunit : (1 : ℚ) ≤ |(j : ℚ) - em.roundedMantissa| := by
      have hint : 1 ≤ |j - em.roundedMantissa| := Int.one_le_abs (sub_ne_zero.mpr hne)
      exact_mod_cast hint
    have htriangle := abs_sub_le (j : ℚ) x em.roundedMantissa
    rw [abs_sub_comm x] at htriangle
    linarith

end

/-! ## Formats -/

/-- The number with this sign. -/
def signed : Sign → ℚ → ℚ
  | .positive, x => x
  | .negative, x => -x

/-- The number that is represented, if it is one. -/
def value : UnpackedFloat → Option ℚ
  | .zero _ => some 0
  | .finite s m e _ => some (signed s (m * 2 ^ e))
  | _ => none

/-- The exponent is the one that the format wants. -/
def Canonical (spec : Format) : UnpackedFloat → Prop
  | .finite _ m e _ => spec.targetExponent (totalExponent m e) = e
  | _ => True

/-- The numbers of a format, without its upper end. -/
def numbers (spec : Format) : Set ℚ := grid spec.mantissaBits spec.minExponent

section

variable {spec : Format} {m : ℕ} {e : ℤ}

theorem mantissaBits_pos (spec : Format) : 0 < spec.mantissaBits :=
  Nat.lt_of_lt_of_le one_pos (Nat.le_add_right _ _)

/-- The exponent is as low as it can be, or leaves all the bits of the mantissa above it. -/
theorem targetExponent_cases (spec : Format) (m : ℕ) (e : ℤ) :
    spec.minExponent ≤ spec.targetExponent (totalExponent m e) ∧
      m.log2 + 1 + e ≤ spec.targetExponent (totalExponent m e) + spec.mantissaBits ∧
      (spec.targetExponent (totalExponent m e) = spec.minExponent ∨
        spec.targetExponent (totalExponent m e) + spec.mantissaBits = m.log2 + 1 + e) := by
  unfold Format.targetExponent totalExponent
  omega

theorem canonical_iff {s : Sign} (hm : 0 < m) :
    Canonical spec (.finite s m e hm) ↔ m < 2 ^ spec.mantissaBits ∧ spec.minExponent ≤ e ∧
      (e = spec.minExponent ∨ 2 ^ (spec.mantissaBits - 1) ≤ m) := by
  have hbits := mantissaBits_pos spec
  rw [← Nat.log2_lt hm.ne', ← Nat.le_log2 hm.ne']
  unfold Canonical Format.targetExponent totalExponent
  omega

theorem shiftToExponent_exact {t : ℤ} (h : e ≤ t) : shiftToExponent m e .exact t =
    (ExtendedMantissa.ofMantissaAndAccuracy m .exact >>> (t - e).toNat, t) := by
  have hexponent : e + ((t - e).toNat : ℤ) = t := by omega
  rw [shiftToExponent, hexponent]

theorem shiftToExponent_self (m : ℕ) {t : ℤ} (h : t ≤ e) :
    shiftToExponent m e .exact t = (.ofMantissaAndAccuracy m .exact, e) := by
  have hzero : (t - e).toNat = 0 := by omega
  rw [shiftToExponent, hzero, Nat.cast_zero, add_zero]
  rfl

/-- **The carry**: a mantissa that rounding has brought up to `2 ^ mantissaBits` loses its last
bit, which is 0, and any other one is left as it is. -/
theorem shift_rounded {s : Sign} {t : ℤ} {r : ℕ} (hr : 0 < r) (htop : r ≤ 2 ^ spec.mantissaBits)
    (ht : spec.minExponent ≤ t) (hlow : t = spec.minExponent ∨ 2 ^ (spec.mantissaBits - 1) ≤ r) :
    ∃ (m' : ℕ) (e' : ℤ) (hm' : 0 < m'), (shiftToTargetExponent spec r t .exact).1.mantissa = m' ∧
      (shiftToTargetExponent spec r t .exact).2 = e' ∧ Canonical spec (.finite s m' e' hm') ∧
      (m' : ℚ) * 2 ^ e' = r * 2 ^ t := by
  rcases htop.lt_or_eq with hless | hfull
  · -- canonical already
    have hcanonical := (canonical_iff (s := s) hr).mpr ⟨hless, ht, hlow⟩
    have hstay : shiftToTargetExponent spec r t .exact = (.ofMantissaAndAccuracy r .exact, t) :=
      shiftToExponent_self r (le_of_eq hcanonical)
    exact ⟨r, t, hr, congrArg (fun q => q.1.mantissa) hstay, congrArg Prod.snd hstay, hcanonical,
      rfl⟩
  · have hbits := mantissaBits_pos spec
    have hpos : 0 < 2 ^ (spec.mantissaBits - 1) := Nat.two_pow_pos _
    have hdouble : 2 ^ spec.mantissaBits = 2 ^ (spec.mantissaBits - 1) * 2 := by
      rw [← pow_succ, Nat.sub_add_cancel hbits]
    have htarget : spec.targetExponent (totalExponent r t) = t + 1 := by
      have hlog : r.log2 = spec.mantissaBits := by rw [hfull, Nat.log2_two_pow]
      unfold Format.targetExponent totalExponent
      omega
    have hshift : shiftToTargetExponent spec r t .exact =
        (ExtendedMantissa.ofMantissaAndAccuracy r .exact >>> 1, t + 1) := by
      have hone : (t + 1 - t).toNat = 1 := by omega
      rw [shiftToTargetExponent, htarget, shiftToExponent_exact (by omega), hone]
    refine ⟨2 ^ (spec.mantissaBits - 1), t + 1, hpos, ?_, congrArg Prod.snd hshift, ?_, ?_⟩
    · rw [hshift, mantissa_shiftRight, pow_one]
      show r / 2 = _
      rw [hfull, hdouble, Nat.mul_div_cancel _ two_pos]
    · exact (canonical_iff hpos).mpr ⟨by omega, by omega, Or.inr le_rfl⟩
    · have hcast : (r : ℚ) = ((2 ^ (spec.mantissaBits - 1) : ℕ) : ℚ) * 2 := by
        rw [hfull, hdouble, Nat.cast_mul, Nat.cast_ofNat]
      rw [hcast, zpow_add_one₀ two_ne_zero]
      ring

/-- **The first shift** and the rounding behind it: at most one bit too many, all bits unless the
exponent is as low as it can be, and a nearest multiple of the power of two. -/
theorem rounded_shift (hm : 0 < m) (he : e ≤ spec.targetExponent (totalExponent m e)) :
    ∃ r : ℕ, (shiftToTargetExponent spec m e .exact).1.roundedMantissa = r ∧
      r ≤ 2 ^ spec.mantissaBits ∧
      (spec.targetExponent (totalExponent m e) = spec.minExponent ∨
        2 ^ (spec.mantissaBits - 1) ≤ r ∧ (2 : ℚ) ^ (spec.mantissaBits - 1) *
          2 ^ spec.targetExponent (totalExponent m e) ≤ m * 2 ^ e) ∧
      ∀ j : ℤ, |(r : ℚ) * 2 ^ spec.targetExponent (totalExponent m e) - m * 2 ^ e| ≤
        |(j : ℚ) * 2 ^ spec.targetExponent (totalExponent m e) - m * 2 ^ e| := by
  have hbits := mantissaBits_pos spec
  rcases targetExponent_cases spec m e with ⟨-, htop, hlow⟩
  obtain ⟨t, ht⟩ : ∃ t, t = spec.targetExponent (totalExponent m e) := ⟨_, rfl⟩
  rw [← ht] at he htop hlow
  obtain ⟨k, hk⟩ : ∃ k : ℕ, t = e + k := ⟨(t - e).toNat, by omega⟩
  obtain ⟨em, hem⟩ : ∃ em, em = ExtendedMantissa.ofMantissaAndAccuracy m .exact >>> k := ⟨_, rfl⟩
  have hshift : (shiftToTargetExponent spec m e .exact).1 = em := by
    have hamount : (t - e).toNat = k := by omega
    rw [shiftToTargetExponent, ← ht, shiftToExponent_exact he, hamount, hem]
  have hmantissa : em.mantissa = m / 2 ^ k := by
    rw [hem, mantissa_shiftRight]
    rfl
  -- the number in units of `2 ^ t`
  obtain ⟨x, hx⟩ : ∃ x : ℚ, (m : ℚ) = 2 ^ k * x :=
    ⟨m * (2 ^ k)⁻¹, by rw [mul_comm, mul_assoc, inv_mul_cancel₀ (by positivity), mul_one]⟩
  have hunits : (m : ℚ) * 2 ^ e = x * 2 ^ t := by
    rw [hx, hk, zpow_add₀ two_ne_zero, zpow_natCast]
    ring
  have hreads : Reads em x := by
    rw [hem]
    apply Reads.shiftRight
    rw [← hx]
    exact reads_exact m
  rcases mantissa_le_roundedMantissa em with ⟨hfloor, hceil⟩
  rw [hmantissa] at hfloor hceil
  refine ⟨em.roundedMantissa, by rw [hshift], ?_, ?_, ?_⟩
  · -- the mantissa before rounding has no bit too many
    have hlog : m < 2 ^ (m.log2 + 1) := Nat.lt_log2_self
    have hpow : 2 ^ (m.log2 + 1) ≤ 2 ^ spec.mantissaBits * 2 ^ k := by
      rw [← pow_add]
      exact Nat.pow_le_pow_right two_pos (by omega)
    have hless : m / 2 ^ k < 2 ^ spec.mantissaBits :=
      Nat.div_lt_of_lt_mul (by rw [mul_comm]; exact hlog.trans_le hpow)
    omega
  · rw [← ht]
    rcases hlow with hmin | hfull
    · exact Or.inl hmin
    · right
      have hlog : 2 ^ m.log2 ≤ m := Nat.log2_self_le hm.ne'
      have hsplit : m.log2 = spec.mantissaBits - 1 + k := by omega
      rw [hsplit, pow_add] at hlog
      constructor
      · exact ((Nat.le_div_iff_mul_le (Nat.two_pow_pos k)).mpr hlog).trans hfloor
      · have hcast : (2 : ℚ) ^ (spec.mantissaBits - 1) * 2 ^ k ≤ m := by exact_mod_cast hlog
        rw [hk, zpow_add₀ two_ne_zero, zpow_natCast]
        calc (2 : ℚ) ^ (spec.mantissaBits - 1) * (2 ^ e * 2 ^ k)
            = 2 ^ (spec.mantissaBits - 1) * 2 ^ k * 2 ^ e := by ring
          _ ≤ m * 2 ^ e := mul_le_mul_of_nonneg_right hcast (by positivity)
  · intro j
    rw [← ht, hunits, ← sub_mul, ← sub_mul, abs_mul, abs_mul]
    exact mul_le_mul_of_nonneg_right (hreads.roundedMantissa_nearest j) (abs_nonneg _)

theorem nearest_signed {s : Sign} {x y : ℚ} (h : Nearest (numbers spec) x y) :
    Nearest (numbers spec) (signed s x) (signed s y) := by
  cases s with
  | positive => exact h
  | negative => exact h.neg fun _ => neg_mem_grid

/-- **Rounding** gives a canonical number that is nearest to the exact one, if the exponent is
not above the one that the format wants. -/
theorem roundWithAccuracy_spec (s : Sign) (hm : 0 < m)
    (he : e ≤ spec.targetExponent (totalExponent m e)) :
    Canonical spec (roundWithAccuracy spec s m e .exact) ∧
      ∃ y, value (roundWithAccuracy spec s m e .exact) = some (signed s y) ∧
        Nearest (numbers spec) (m * 2 ^ e) y := by
  rcases rounded_shift hm he with ⟨r, hr, htop, hlow, hnear⟩
  rcases targetExponent_cases spec m e with ⟨hmin, -, -⟩
  obtain ⟨t, ht⟩ : ∃ t, t = spec.targetExponent (totalExponent m e) := ⟨_, rfl⟩
  rw [← ht] at hlow hnear hmin
  have hexponent : (shiftToTargetExponent spec m e .exact).2 = t := by
    rw [shiftToTargetExponent, ← ht, shiftToExponent_exact (ht ▸ he)]
  have hresult : roundWithAccuracy spec s m e .exact =
      if h : (shiftToTargetExponent spec r t .exact).1.mantissa = 0 then .zero s
      else .finite s (shiftToTargetExponent spec r t .exact).1.mantissa
        (shiftToTargetExponent spec r t .exact).2 (Nat.pos_of_ne_zero h) := by
    rw [← hr, ← hexponent]
    rfl
  have hpoint : Nearest (numbers spec) (m * 2 ^ e) ((r : ℤ) * 2 ^ t) := by
    refine nearest_grid (mantissaBits_pos spec) hmin ?_ ?_ ?_
    · rw [abs_of_nonneg (Int.natCast_nonneg r)]
      exact_mod_cast htop
    · intro j
      rw [Int.cast_natCast]
      exact hnear j
    · exact hlow.imp_right And.right
  rw [Int.cast_natCast] at hpoint
  rcases Nat.eq_zero_or_pos r with hzero | hpos
  · -- everything was rounded away
    have hnothing : (shiftToTargetExponent spec r t .exact).1.mantissa = 0 := by
      rw [hzero, shiftToTargetExponent, shiftToExponent, mantissa_shiftRight]
      exact Nat.zero_div _
    rw [hresult, dif_pos hnothing]
    refine ⟨trivial, 0, ?_, ?_⟩
    · cases s
      · exact congrArg some neg_zero.symm
      · rfl
    · rwa [hzero, Nat.cast_zero, zero_mul] at hpoint
  · rcases shift_rounded (s := s) hpos htop hmin (hlow.imp_right And.left) with
      ⟨m', e', hm', hmantissa, hexponent', hcanonical, hvalue⟩
    have hfinite : roundWithAccuracy spec s m e .exact = .finite s m' e' hm' := by
      rw [hresult, dif_neg (by omega)]
      congr
    rw [hfinite]
    exact ⟨hcanonical, m' * 2 ^ e', rfl, by rwa [hvalue]⟩

end

end AudioProc.FloatRounding
