import Mathlib.Algebra.Order.Ring.Abs
import Mathlib.Algebra.Order.Field.Power
import Mathlib.Algebra.Order.Round
import Mathlib.Data.Rat.Floor
import Mathlib.Tactic.Linarith
import Mathlib.Tactic.Ring

/-!
# Nearest points and binary grids

`Nearest S x y` says that no point of `S` is nearer to `x` than the point `y` of `S` is. It
says nothing about ties, which is enough for what rounding is needed for: it keeps bounds that
are points of `S` themselves and leaves the points of `S` alone.

`grid p b` are the multiples of powers of two from `2 ^ b` on with factors of at most `p` bits:
the numbers of a binary floating-point format without its upper end. `nearest_grid` says what
rounding to a number of the right power of two has to do with it.
-/

namespace AudioProc

universe u

/-- The point `y` of `S` is as near to `x` as any. -/
def Nearest {K : Type u} [Lattice K] [AddGroup K] (S : Set K) (x y : K) : Prop :=
  y ∈ S ∧ ∀ z ∈ S, |y - x| ≤ |z - x|

namespace Nearest

variable {K : Type u} [Field K] [LinearOrder K] [IsStrictOrderedRing K]
variable {S : Set K} {x x' y y' z : K}

omit [IsStrictOrderedRing K] in
theorem mem (h : Nearest S x y) : y ∈ S := h.1

/-- What is in `S` is left alone. -/
theorem eq (h : Nearest S x y) (hx : x ∈ S) : y = x := by
  have hdist := h.2 x hx
  rw [sub_self, abs_zero] at hdist
  exact sub_eq_zero.mp (abs_eq_zero.mp (le_antisymm hdist (abs_nonneg _)))

theorem self (hx : x ∈ S) : Nearest S x x := by
  refine ⟨hx, ?_⟩
  intro z _
  rw [sub_self, abs_zero]
  exact abs_nonneg _

/-- An upper bound in `S` is kept. -/
theorem le (h : Nearest S x y) (hz : z ∈ S) (hxz : x ≤ z) : y ≤ z := by
  have hdist := h.2 z hz
  rw [abs_of_nonneg (sub_nonneg.mpr hxz)] at hdist
  have habove := (le_abs_self (y - x)).trans hdist
  linarith

/-- A lower bound in `S` is kept. -/
theorem ge (h : Nearest S x y) (hz : z ∈ S) (hzx : z ≤ x) : z ≤ y := by
  have hdist := h.2 z hz
  rw [abs_of_nonpos (sub_nonpos.mpr hzx)] at hdist
  have hbelow := (neg_le_abs (y - x)).trans hdist
  linarith

omit [IsStrictOrderedRing K] in
/-- Any point of `S` bounds the error. -/
theorem error_le (h : Nearest S x y) (hz : z ∈ S) : |y - x| ≤ |z - x| := h.2 z hz

omit [IsStrictOrderedRing K] in
theorem neg (hS : ∀ z ∈ S, -z ∈ S) (h : Nearest S x y) : Nearest S (-x) (-y) := by
  refine ⟨hS y h.mem, ?_⟩
  intro z hz
  have hy : -y - -x = -(y - x) := by ring
  have hneg : z - -x = -(-z - x) := by ring
  rw [hy, hneg, abs_neg, abs_neg]
  exact h.2 (-z) (hS z hz)

end Nearest

/-! ## Grids -/

/-- The numbers `m * 2 ^ k` with at most `p` bits in `m` and `k` not below `b`. -/
def grid (p : ℕ) (b : ℤ) : Set ℚ := {x | ∃ m k : ℤ, |m| < 2 ^ p ∧ b ≤ k ∧ x = m * 2 ^ k}

section

variable {p : ℕ} {b t : ℤ} {x : ℚ}

theorem mem_grid {m k : ℤ} (hm : |m| < 2 ^ p) (hk : b ≤ k) : (m : ℚ) * 2 ^ k ∈ grid p b :=
  ⟨m, k, hm, hk, rfl⟩

theorem neg_mem_grid (h : x ∈ grid p b) : -x ∈ grid p b := by
  rcases h with ⟨m, k, hm, hk, rfl⟩
  have hneg := @mem_grid p b (-m) k (by rwa [abs_neg]) hk
  rwa [Int.cast_neg, neg_mul] at hneg

theorem zero_mem_grid : (0 : ℚ) ∈ grid p b := by
  have hzero := @mem_grid p b 0 b (by positivity) le_rfl
  rwa [Int.cast_zero, zero_mul] at hzero

theorem two_zpow_mem_grid (hp : 0 < p) (ht : b ≤ t) : (2 : ℚ) ^ t ∈ grid p b := by
  have hone : |(1 : ℤ)| < 2 ^ p := by
    rw [abs_one]
    exact one_lt_pow₀ one_lt_two hp.ne'
  have hmem := mem_grid hone ht
  rwa [Int.cast_one, one_mul] at hmem

/-- A multiple of `2 ^ t` with one bit too many is in the grid if it is the largest one. -/
theorem mul_mem_grid {r : ℤ} (hp : 0 < p) (ht : b ≤ t) (hr : |r| ≤ 2 ^ p) :
    (r : ℚ) * 2 ^ t ∈ grid p b := by
  rcases hr.lt_or_eq with hless | htop
  · exact mem_grid hless ht
  · have hpower : (2 : ℚ) ^ p * 2 ^ t = 2 ^ (p + t) := by
      rw [← zpow_natCast, ← zpow_add₀ two_ne_zero]
    have hmem : (2 : ℚ) ^ (p + t) ∈ grid p b := two_zpow_mem_grid hp (by omega)
    rcases abs_eq (by positivity) |>.mp htop with rfl | rfl
    · push_cast
      rwa [hpower]
    · push_cast
      rw [neg_mul, hpower]
      exact neg_mem_grid hmem

/-- A multiple of a larger power of two is one of `2 ^ t`. -/
theorem mul_two_zpow {m k : ℤ} (h : t ≤ k) :
    (m : ℚ) * 2 ^ k = ((m * 2 ^ (k - t).toNat : ℤ) : ℚ) * 2 ^ t := by
  have hsum : k = (k - t).toNat + t := by omega
  conv_lhs => rw [hsum, zpow_add₀ two_ne_zero, zpow_natCast]
  push_cast
  ring

/-- The numbers of the grid with a smaller power of two end where those with `2 ^ t` have all
their bits. -/
theorem finer_le {m k : ℤ} (hp : 0 < p) (hm : |m| < 2 ^ p) (h : k < t) :
    (m : ℚ) * 2 ^ k ≤ 2 ^ (p - 1) * 2 ^ t := by
  have hm' : (m : ℚ) ≤ 2 ^ p := by
    exact_mod_cast (le_abs_self m).trans hm.le
  have hdouble : (2 : ℚ) ^ p = 2 ^ (p - 1) * 2 := by
    rw [← pow_succ, Nat.sub_add_cancel hp]
  have hfine : (2 : ℚ) * 2 ^ k ≤ 2 ^ t := by
    rw [← zpow_one_add₀ two_ne_zero]
    exact zpow_le_zpow_right₀ one_le_two (by omega)
  calc (m : ℚ) * 2 ^ k ≤ 2 ^ p * 2 ^ k := mul_le_mul_of_nonneg_right hm' (by positivity)
    _ = 2 ^ (p - 1) * (2 * 2 ^ k) := by rw [hdouble, mul_assoc]
    _ ≤ 2 ^ (p - 1) * 2 ^ t := mul_le_mul_of_nonneg_left hfine (by positivity)

/-- **Rounding to a grid**: it is enough to be nearest among the multiples of `2 ^ t`, if `x`
has all its `p` bits above that or `t` is as low as it can be. -/
theorem nearest_grid {r : ℤ} (hp : 0 < p) (ht : b ≤ t) (hr : |r| ≤ 2 ^ p)
    (hnear : ∀ j : ℤ, |(r : ℚ) * 2 ^ t - x| ≤ |(j : ℚ) * 2 ^ t - x|)
    (hlow : t = b ∨ 2 ^ (p - 1) * 2 ^ t ≤ x) : Nearest (grid p b) x (r * 2 ^ t) := by
  refine ⟨mul_mem_grid hp ht hr, ?_⟩
  rintro z ⟨m, k, hm, hk, rfl⟩
  rcases le_or_gt t k with hkt | hkt
  · -- a multiple of `2 ^ t` itself
    rw [mul_two_zpow hkt]
    exact hnear _
  · -- a finer one is below the first number with all its bits, and that is below `x`
    have hx : (2 : ℚ) ^ (p - 1) * 2 ^ t ≤ x := by
      rcases hlow with rfl | hx
      · omega
      · exact hx
    have hz := finer_le hp hm hkt
    have hfirst := hnear (2 ^ (p - 1))
    push_cast at hfirst
    refine hfirst.trans ?_
    rw [abs_of_nonpos (sub_nonpos.mpr hx), abs_of_nonpos (sub_nonpos.mpr (hz.trans hx))]
    linarith

/-- From `2 ^ t` with all the bits on, the numbers of the grid are multiples of `2 ^ t`. -/
theorem grid_multiple (hp : 0 < p) (hx : x ∈ grid p b) (hlow : 2 ^ (p - 1) * 2 ^ t ≤ x) :
    ∃ r : ℤ, x = r * 2 ^ t := by
  rcases hx with ⟨m, k, hm, -, rfl⟩
  rcases le_or_gt t k with hkt | hkt
  · exact ⟨_, mul_two_zpow hkt⟩
  · -- finer numbers get to the first of them at most
    refine ⟨2 ^ (p - 1), ?_⟩
    push_cast
    exact le_antisymm (finer_le hp hm hkt) hlow

/-- Behind a power of two the next number of the grid is `2 ^ t` away. -/
theorem grid_gap (hp : 0 < p) (hx : x ∈ grid p b) (hlow : 2 ^ (p - 1) * 2 ^ t < x) :
    2 ^ (p - 1) * 2 ^ t + 2 ^ t ≤ x := by
  rcases grid_multiple hp hx hlow.le with ⟨r, rfl⟩
  have hpos : (0 : ℚ) < 2 ^ t := by positivity
  have hint : (2 : ℤ) ^ (p - 1) < r := by
    exact_mod_cast lt_of_mul_lt_mul_right hlow hpos.le
  have hnext : ((2 : ℚ) ^ (p - 1) + 1) ≤ r := by
    exact_mod_cast hint
  have hscaled := mul_le_mul_of_nonneg_right hnext hpos.le
  linarith

/-- **The error of rounding** is at most half of the power of two that the numbers up to here
need. -/
theorem nearest_error {y : ℚ} (h : Nearest (grid p b) x y) (hp : 0 < p) (ht : b ≤ t) (h₀ : 0 ≤ x)
    (hx : x ≤ 2 ^ p * 2 ^ t) : 2 * |y - x| ≤ 2 ^ t := by
  have hpos : (0 : ℚ) < 2 ^ t := by positivity
  obtain ⟨u, hu⟩ : ∃ u : ℚ, x = u * 2 ^ t :=
    ⟨x * (2 ^ t)⁻¹, by rw [mul_assoc, inv_mul_cancel₀ hpos.ne', mul_one]⟩
  have hu₀ : 0 ≤ u := nonneg_of_mul_nonneg_left (hu ▸ h₀) hpos
  have hup : u ≤ 2 ^ p := le_of_mul_le_mul_right (hu ▸ hx) hpos
  have hround := abs_le.mp (abs_sub_round u)
  -- the nearest multiple of `2 ^ t` is in the grid
  have hlow : -1 < round u := by
    have hreal : (-1 : ℚ) < round u := by linarith
    exact_mod_cast hreal
  have hhigh : round u < 2 ^ p + 1 := by
    have hreal : (round u : ℚ) < 2 ^ p + 1 := by linarith
    exact_mod_cast hreal
  have hmem : (round u : ℚ) * 2 ^ t ∈ grid p b := by
    apply mul_mem_grid hp ht
    rw [abs_of_nonneg (by omega)]
    omega
  have herror := h.error_le hmem
  have hdist : |(round u : ℚ) * 2 ^ t - x| = |u - round u| * 2 ^ t := by
    rw [hu, ← sub_mul, abs_mul, abs_of_pos hpos, abs_sub_comm]
  rw [hdist] at herror
  have hhalf := mul_le_mul_of_nonneg_right (abs_sub_round u) hpos.le
  linarith

end

end AudioProc
