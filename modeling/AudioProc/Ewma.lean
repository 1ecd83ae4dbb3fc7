import Mathlib.Algebra.BigOperators.Intervals
import Mathlib.Algebra.BigOperators.Ring.Finset
import Mathlib.Algebra.Order.Field.Basic
import Mathlib.Algebra.Order.Ring.Abs
import Mathlib.Tactic.Ring
import Mathlib.Tactic.LinearCombination
import Mathlib.Tactic.Linarith
import Mathlib.Tactic.Positivity

/-!
# Exponentially weighted sums

The batch side of a first-order recursive filter `s ← q * s + a * v`. Sequences are
indexed from 1, oldest value first; what is at index 0 is never summed.

* `ewSum a q v n` is `∑ k ∈ 1..n, a * q ^ (n - k) * v k`, and `ewSum_succ` is its
  recurrence;
* `ewSum_delay` delays a sequence that starts from 0;
* `ewSum_mono`, `ewSum_const` bound the sums, `four_ewSum_sq_sub_le` their second moment;
* `ewCov` is the weighted covariance scaled by `q`, and `ewCov_succ` the recurrence in
  which both means are already the updated ones; it is bilinear and delays like the sums;
* `weighted_cauchy_step` is the step of a Cauchy–Schwarz inequality kept as an invariant.
-/

namespace AudioProc.Ewma

open Finset

universe u

section Sums

variable {R : Type u} [CommRing R] (a q : R)

/-- The exponentially weighted sum of `v 1, …, v n`, the newest value with weight `a`. -/
def ewSum (v : ℕ → R) (n : ℕ) : R :=
  ∑ k ∈ Icc 1 n, a * q ^ (n - k) * v k

@[simp] theorem ewSum_zero (v : ℕ → R) : ewSum a q v 0 = 0 := by
  simp [ewSum]

theorem ewSum_succ (v : ℕ → R) (n : ℕ) :
    ewSum a q v (n + 1) = q * ewSum a q v n + a * v (n + 1) := by
  have hold : ∀ k ∈ Icc 1 n, a * q ^ (n + 1 - k) * v k = q * (a * q ^ (n - k) * v k) := by
    intro k hk
    have hkn : k ≤ n := (mem_Icc.mp hk).2
    rw [Nat.succ_sub hkn, pow_succ]
    ring
  rw [ewSum, sum_Icc_succ_top (Nat.succ_le_succ (Nat.zero_le n)), sum_congr rfl hold,
    ← mul_sum]
  simp [ewSum]

theorem ewSum_congr {v w : ℕ → R} {n : ℕ} (h : ∀ k, 1 ≤ k → k ≤ n → v k = w k) :
    ewSum a q v n = ewSum a q w n := by
  apply sum_congr rfl
  intro k hk
  rw [h k (mem_Icc.mp hk).1 (mem_Icc.mp hk).2]

theorem ewSum_smul (g : R) (v : ℕ → R) (n : ℕ) :
    ewSum a q (fun k => g * v k) n = g * ewSum a q v n := by
  rw [ewSum, ewSum, mul_sum]
  apply sum_congr rfl
  intro k _
  ring

theorem ewSum_add (v w : ℕ → R) (n : ℕ) :
    ewSum a q (fun k => v k + w k) n = ewSum a q v n + ewSum a q w n := by
  rw [ewSum, ewSum, ewSum, ← sum_add_distrib]
  apply sum_congr rfl
  intro k _
  ring

/-- The weights of `n` values add up to `1 - q ^ n`. -/
theorem ewSum_const (h : a + q = 1) (c : R) (n : ℕ) :
    ewSum a q (fun _ => c) n = (1 - q ^ n) * c := by
  have ha : a = 1 - q := by linear_combination h
  induction n with
  | zero => simp
  | succ n ih =>
      rw [ewSum_succ, ih, pow_succ, ha]
      ring

/-- Delaying a sequence that is 0 before its start delays its weighted sum. -/
theorem ewSum_delay {v : ℕ → R} (hv : v 0 = 0) (d n : ℕ) :
    ewSum a q (fun k => v (k - d)) n = ewSum a q v (n - d) := by
  induction n with
  | zero => simp
  | succ n ih =>
      rw [ewSum_succ, ih]
      rcases Nat.lt_or_ge n d with hlt | hge
      · -- the delayed sequence has not started yet
        simp [show n + 1 - d = 0 by omega, show n - d = 0 by omega, hv]
      · rw [Nat.succ_sub hge, ewSum_succ]

/-- The exponentially weighted covariance of two sequences, up to the factor `q`. -/
def ewCov (x y : ℕ → R) (n : ℕ) : R :=
  q * (ewSum a q (fun k => x k * y k) n - ewSum a q x n * ewSum a q y n)

@[simp] theorem ewCov_zero (x y : ℕ → R) : ewCov a q x y 0 = 0 := by
  simp [ewCov]

/-- The covariance recurrence with the deviations taken from the updated means. -/
theorem ewCov_succ (h : a + q = 1) (x y : ℕ → R) (n : ℕ) :
    ewCov a q x y (n + 1) = q * ewCov a q x y n +
      a * (x (n + 1) - ewSum a q x (n + 1)) * (y (n + 1) - ewSum a q y (n + 1)) := by
  have ha : a = 1 - q := by linear_combination h
  simp only [ewCov, ewSum_succ, ha]
  ring

theorem ewCov_congr {x x' y y' : ℕ → R} {n : ℕ} (hx : ∀ k, 1 ≤ k → k ≤ n → x k = x' k)
    (hy : ∀ k, 1 ≤ k → k ≤ n → y k = y' k) : ewCov a q x y n = ewCov a q x' y' n := by
  have hxy : ewSum a q (fun k => x k * y k) n = ewSum a q (fun k => x' k * y' k) n := by
    apply ewSum_congr
    intro k hk hkn
    rw [hx k hk hkn, hy k hk hkn]
  rw [ewCov, ewCov, hxy, ewSum_congr a q hx, ewSum_congr a q hy]

/-- Scaling both sequences scales the covariance by both factors. -/
theorem ewCov_smul (g h : R) (x y : ℕ → R) (n : ℕ) :
    ewCov a q (fun k => g * x k) (fun k => h * y k) n = g * h * ewCov a q x y n := by
  have hxy : (fun k => g * x k * (h * y k)) = fun k => g * h * (x k * y k) := by
    funext k
    ring
  rw [ewCov, ewCov, hxy, ewSum_smul, ewSum_smul, ewSum_smul]
  ring

/-- Delaying both sequences delays the covariance. -/
theorem ewCov_delay {x y : ℕ → R} (hx : x 0 = 0) (hy : y 0 = 0) (d n : ℕ) :
    ewCov a q (fun k => x (k - d)) (fun k => y (k - d)) n = ewCov a q x y (n - d) := by
  have hxy : x 0 * y 0 = 0 := by rw [hx, zero_mul]
  rw [ewCov, ewCov, ewSum_delay a q hx, ewSum_delay a q hy,
    ewSum_delay (v := fun k => x k * y k) a q hxy]

end Sums

section Order

variable {R : Type u} [CommRing R] [LinearOrder R] [IsStrictOrderedRing R]

/-- If `K² ≤ V * W` then the mixed term is dominated by the two pure ones. -/
theorem mixed_le_of_sq_le {K V W : R} (hV : 0 ≤ V) (hW : 0 ≤ W) (h : K ^ 2 ≤ V * W)
    (x y : R) : 2 * K * x * y ≤ V * y ^ 2 + W * x ^ 2 := by
  have hpure : 0 ≤ V * y ^ 2 + W * x ^ 2 := by positivity
  have hsq : (2 * K * x * y) ^ 2 ≤ (V * y ^ 2 + W * x ^ 2) ^ 2 := by
    calc (2 * K * x * y) ^ 2 = 4 * (x * y) ^ 2 * K ^ 2 := by ring
      _ ≤ 4 * (x * y) ^ 2 * (V * W) := by gcongr
      _ ≤ 4 * (x * y) ^ 2 * (V * W) + (V * y ^ 2 - W * x ^ 2) ^ 2 :=
        le_add_of_nonneg_right (sq_nonneg _)
      _ = (V * y ^ 2 + W * x ^ 2) ^ 2 := by ring
  exact (le_abs_self _).trans (abs_le_of_sq_le_sq hsq hpure)

/-- One step of the weighted Cauchy–Schwarz inequality: if the old sums satisfy it, so do
the sums after `x`, `y` and `x * y` have been mixed in with weight `a`. -/
theorem weighted_cauchy_step {K V W q a : R} (hq : 0 ≤ q) (ha : 0 ≤ a) (hV : 0 ≤ V)
    (hW : 0 ≤ W) (h : K ^ 2 ≤ V * W) (x y : R) :
    (q * K + a * x * y) ^ 2 ≤ (q * V + a * x ^ 2) * (q * W + a * y ^ 2) := by
  have hmixed : 0 ≤ V * y ^ 2 + W * x ^ 2 - 2 * K * x * y :=
    sub_nonneg.mpr (mixed_le_of_sq_le hV hW h x y)
  have hold : 0 ≤ V * W - K ^ 2 := sub_nonneg.mpr h
  have hgap : 0 ≤ q ^ 2 * (V * W - K ^ 2) +
      q * a * (V * y ^ 2 + W * x ^ 2 - 2 * K * x * y) := by positivity
  linarith [hgap]

theorem ewSum_mono {a q : R} (ha : 0 ≤ a) (hq : 0 ≤ q) {v w : ℕ → R} {n : ℕ}
    (h : ∀ k, 1 ≤ k → k ≤ n → v k ≤ w k) : ewSum a q v n ≤ ewSum a q w n := by
  apply sum_le_sum
  intro k hk
  have hweight : 0 ≤ a * q ^ (n - k) := mul_nonneg ha (pow_nonneg hq _)
  exact mul_le_mul_of_nonneg_left (h k (mem_Icc.mp hk).1 (mem_Icc.mp hk).2) hweight

/-- Popoviciu's inequality for the weighted second moment: values between `lo` and `hi`,
with 0 between them for the weight that is still missing. -/
theorem four_ewSum_sq_sub_le {a q : R} (ha : 0 ≤ a) (hq : 0 ≤ q) (h : a + q = 1) {lo hi : R}
    (hlo : lo ≤ 0) (hhi : 0 ≤ hi) {v : ℕ → R} {n : ℕ}
    (hv : ∀ k, 1 ≤ k → k ≤ n → lo ≤ v k ∧ v k ≤ hi) :
    4 * (ewSum a q (fun k => v k * v k) n - ewSum a q v n * ewSum a q v n) ≤
      (hi - lo) ^ 2 := by
  have hsq : ewSum a q (fun k => v k * v k) n ≤
      ewSum a q (fun k => (lo + hi) * v k + -(lo * hi)) n := by
    apply ewSum_mono ha hq
    intro k hk hkn
    have hprod : 0 ≤ (v k - lo) * (hi - v k) :=
      mul_nonneg (sub_nonneg.mpr (hv k hk hkn).1) (sub_nonneg.mpr (hv k hk hkn).2)
    linarith
  have hchord : ewSum a q (fun k => (lo + hi) * v k + -(lo * hi)) n =
      (lo + hi) * ewSum a q v n + (1 - q ^ n) * -(lo * hi) := by
    rw [ewSum_add a q (fun k => (lo + hi) * v k) (fun _ => -(lo * hi)), ewSum_smul,
      ewSum_const a q h]
  -- the missing weight only makes the chord smaller
  have hmissing : 0 ≤ q ^ n * -(lo * hi) :=
    mul_nonneg (pow_nonneg hq n) (neg_nonneg.mpr (mul_nonpos_of_nonpos_of_nonneg hlo hhi))
  have hparabola : 0 ≤ (2 * ewSum a q v n - (lo + hi)) ^ 2 := sq_nonneg _
  rw [hchord] at hsq
  linarith

end Order

end AudioProc.Ewma
