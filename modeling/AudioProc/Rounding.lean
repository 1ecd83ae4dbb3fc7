import Mathlib.Algebra.Order.Floor.Ring
import Mathlib.Algebra.Order.Round
import Mathlib.Data.Int.ConditionallyCompleteOrder
import Mathlib.Tactic.Linarith
import Mathlib.Tactic.Ring

/-!
# Rounding to the nearest integer

Rounding with ties away from zero, in any ordered field with a floor. `IsNearestAway` says
which integer that is, and `roundAway` computes it.

* `isNearestAway_iff`: there is exactly one such integer, the one computed;
* `truncate_add_half`: it is what dropping the fraction leaves once a half of the same sign
  was added;
* `roundAway_clamp`: rounding commutes with clamping between two integers.
-/

namespace AudioProc.Rounding

universe u

variable {K : Type u} [Field K] [LinearOrder K]

/-- No integer is nearer to `x`, and none that is as near is larger in magnitude. -/
structure IsNearestAway (x : K) (n : ℤ) : Prop where
  nearest : ∀ m : ℤ, |x - n| ≤ |x - m|
  away : ∀ m : ℤ, |x - m| = |x - n| → |m| ≤ |n|

section

variable [FloorRing K]

/-- The integer without the fraction, toward zero. -/
def truncate (x : K) : ℤ := if 0 ≤ x then ⌊x⌋ else ⌈x⌉

/-- The nearest integer, the one further from zero where there are two. -/
def roundAway (x : K) : ℤ := if 0 ≤ x then ⌊x + 1 / 2⌋ else ⌈x - 1 / 2⌉

end

/-- Half a unit with the sign of `x`. -/
def half (x : K) : K := if x < 0 then -(1 / 2) else 1 / 2

/-! ## The nearest integer -/

variable [IsStrictOrderedRing K] {x : K} {n : ℤ}

omit [IsStrictOrderedRing K] in
theorem IsNearestAway.neg (h : IsNearestAway x n) : IsNearestAway (-x) (-n) where
  nearest := by
    intro m
    have hdist := h.nearest (-m)
    rw [← abs_neg (x - n), ← abs_neg (x - (-m : ℤ))] at hdist
    push_cast at hdist ⊢
    rwa [show -x - -(n : K) = -(x - n) by abel, show -x - (m : K) = -(x - -m) by abel]
  away := by
    intro m hsame
    have hle := h.away (-m)
    rw [abs_neg] at hle ⊢
    apply hle
    rw [← abs_neg (x - n), ← abs_neg (x - (-m : ℤ))]
    push_cast at hsame ⊢
    rwa [show -(x - -(m : K)) = -x - m by abel, show -(x - (n : K)) = -x - -n by abel]

theorem IsNearestAway.unique {m : ℤ} (hn : IsNearestAway x n) (hm : IsNearestAway x m) :
    n = m := by
  have hdist : |x - n| = |x - m| := le_antisymm (hn.nearest m) (hm.nearest n)
  have habs : |n| = |m| := le_antisymm (hm.away n hdist) (hn.away m hdist.symm)
  rcases abs_eq_abs.mp habs with heq | hneg
  · exact heq
  · -- between an integer and its opposite only zero is as near to both, and zero is nearer
    have hzero := hn.nearest 0
    rw [hneg] at hdist hzero ⊢
    push_cast at hdist hzero
    rcases abs_eq_abs.mp hdist with heq | hopp
    · have hm0 : (m : K) = 0 := by linarith
      have : m = 0 := by exact_mod_cast hm0
      omega
    · have hx : x = 0 := by linarith
      rw [hx, zero_sub, neg_neg, sub_zero, abs_zero] at hzero
      have hm0 : (m : K) = 0 := abs_nonpos_iff.mp hzero
      have : m = 0 := by exact_mod_cast hm0
      omega

/-- For `x` from 0 on it is the integer in the unit interval that ends half a unit above. -/
theorem isNearestAway_of_nonneg (hx : 0 ≤ x) (hlow : (n : K) ≤ x + 1 / 2)
    (hhigh : x + 1 / 2 < n + 1) : IsNearestAway x n := by
  have hdist : |x - n| ≤ 1 / 2 := by
    rw [abs_le]
    constructor
    · linarith
    · linarith
  have hn : 0 ≤ n := by
    have hpos : (0 : K) < n + 1 := by linarith
    have hint : 0 < n + 1 := by exact_mod_cast hpos
    omega
  -- above `n` every integer is further away, below it none is nearer
  have habove : ∀ m : ℤ, n < m → 1 / 2 < |x - m| := by
    intro m hm
    have hint : (n : K) + 1 ≤ m := by exact_mod_cast hm
    rw [abs_sub_comm]
    exact lt_of_lt_of_le (by linarith) (le_abs_self _)
  have hbelow : ∀ m : ℤ, m < n → 1 / 2 ≤ |x - m| := by
    intro m hm
    have hint : (m : K) + 1 ≤ n := by exact_mod_cast hm
    exact le_trans (by linarith) (le_abs_self _)
  constructor
  · intro m
    rcases lt_trichotomy m n with hlt | rfl | hgt
    · exact hdist.trans (hbelow m hlt)
    · exact le_rfl
    · exact hdist.trans (habove m hgt).le
  · intro m hsame
    rcases lt_trichotomy m n with hlt | rfl | hgt
    · -- not below zero, since it is within half a unit of `x`
      have hclose : x - m ≤ 1 / 2 := (le_abs_self _).trans (hsame.trans_le hdist)
      have hpos : (0 : K) < m + 1 := by linarith
      have hint : 0 < m + 1 := by exact_mod_cast hpos
      rw [abs_of_nonneg hn, abs_of_nonneg (by omega)]
      exact hlt.le
    · exact le_rfl
    · have hfar := habove m hgt
      linarith

variable [FloorRing K]

theorem roundAway_neg (x : K) : roundAway (-x) = -roundAway x := by
  unfold roundAway
  -- floor and ceiling change places on the other side of zero
  rcases lt_trichotomy x 0 with hneg | rfl | hpos
  · rw [if_pos (by linarith), if_neg (by linarith), ← Int.floor_neg]
    congr 1
    ring
  · have hfloor : ⌊(0 : K) + 1 / 2⌋ = 0 := by
      rw [Int.floor_eq_zero_iff]
      constructor
      · norm_num
      · norm_num
    rw [neg_zero, if_pos le_rfl, hfloor, neg_zero]
  · rw [if_neg (by linarith), if_pos hpos.le, ← Int.ceil_neg]
    congr 1
    ring

theorem isNearestAway_roundAway (x : K) : IsNearestAway x (roundAway x) := by
  -- the other side of zero follows by the symmetry
  have hnonneg : ∀ y : K, 0 ≤ y → IsNearestAway y (roundAway y) := by
    intro y hy
    rw [roundAway, if_pos hy]
    exact isNearestAway_of_nonneg hy (Int.floor_le _) (Int.lt_floor_add_one _)
  rcases le_total 0 x with hx | hx
  · exact hnonneg x hx
  · have hopp := (hnonneg (-x) (neg_nonneg.mpr hx)).neg
    rwa [roundAway_neg, neg_neg, neg_neg] at hopp

/-- **The nearest integer**, ties away from zero, is the one computed. -/
theorem isNearestAway_iff : IsNearestAway x n ↔ n = roundAway x := by
  constructor
  · intro h
    exact h.unique (isNearestAway_roundAway x)
  · rintro rfl
    exact isNearestAway_roundAway x

/-! ## Computing it -/

/-- Adding a half of the same sign and dropping the fraction rounds. -/
theorem truncate_add_half (x : K) : truncate (x + half x) = roundAway x := by
  unfold truncate half roundAway
  by_cases hx : x < 0
  · rw [if_pos hx, if_neg (by linarith), if_neg (by linarith), sub_eq_add_neg]
  · have hx' := not_lt.mp hx
    rw [if_neg hx, if_pos (by linarith), if_pos hx']

theorem roundAway_intCast (n : ℤ) : roundAway (n : K) = n := by
  symm
  rw [← isNearestAway_iff]
  constructor
  · intro m
    rw [sub_self, abs_zero]
    exact abs_nonneg _
  · intro m hsame
    rw [sub_self, abs_zero, abs_eq_zero, sub_eq_zero] at hsame
    have hm : n = m := by exact_mod_cast hsame
    rw [hm]

theorem roundAway_mono : Monotone (roundAway : K → ℤ) := by
  intro x y hxy
  unfold roundAway
  by_cases hx : 0 ≤ x
  · rw [if_pos hx, if_pos (hx.trans hxy)]
    exact Int.floor_mono (by linarith)
  · rw [if_neg hx]
    by_cases hy : 0 ≤ y
    · -- from one side of zero to the other
      rw [if_pos hy]
      have hlow : ⌈x - 1 / 2⌉ ≤ 0 := Int.ceil_le.mpr (by push_cast; linarith)
      have hhigh : 0 ≤ ⌊y + 1 / 2⌋ := Int.floor_nonneg.mpr (by linarith)
      exact hlow.trans hhigh
    · rw [if_neg hy]
      exact Int.ceil_mono (by linarith)

/-- Between two integers, clamping before and after rounding is the same. -/
theorem roundAway_clamp (x : K) (lo hi : ℤ) :
    roundAway (max (min x hi) lo) = max (min (roundAway x) hi) lo := by
  rw [roundAway_mono.map_max, roundAway_mono.map_min, roundAway_intCast, roundAway_intCast]

end AudioProc.Rounding
