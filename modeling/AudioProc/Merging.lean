import AudioProc.RunningMax
import Mathlib.Analysis.Real.Sqrt
import Mathlib.Analysis.SpecificLimits.Basic

/-!
# Sequences that merge

Two sequences of reals merge when their difference goes to 0. Merging is kept by what is
continuous: products of bounded sequences, square roots, quotients that stay away from 0, and
the maximum over finitely many sequences.

`Merge.filter` says that first-order recursive filters forget where they started: fed with
merging sequences, their states merge too. `Bounded.filter` keeps the states bounded.
-/

namespace AudioProc

open Filter Topology

/-- The difference goes to 0. -/
def Merge (u v : ℕ → ℝ) : Prop := Tendsto (fun n => u n - v n) atTop (𝓝 0)

/-- All terms are in one interval. -/
def Bounded (u : ℕ → ℝ) : Prop := ∃ B, ∀ n, |u n| ≤ B

section

variable {u u' v v' : ℕ → ℝ}

theorem merge_iff : Merge u v ↔ ∀ ε > 0, ∃ N, ∀ n ≥ N, |u n - v n| < ε := by
  rw [Merge, Metric.tendsto_atTop]
  simp only [Real.dist_eq, sub_zero]

theorem Merge.refl (u : ℕ → ℝ) : Merge u u := by
  unfold Merge
  simp only [sub_self]
  exact tendsto_const_nhds

/-- The beginning does not matter. -/
theorem Merge.of_shift (k : ℕ) (h : Merge (fun n => u (n + k)) fun n => v (n + k)) :
    Merge u v :=
  (tendsto_add_atTop_iff_nat k).mp h

theorem Merge.shift (k : ℕ) (h : Merge u v) :
    Merge (fun n => u (n + k)) fun n => v (n + k) :=
  (tendsto_add_atTop_iff_nat (f := fun n => u n - v n) k).mpr h

theorem Bounded.shift (k : ℕ) (h : Bounded u) : Bounded fun n => u (n + k) := by
  rcases h with ⟨B, hB⟩
  exact ⟨B, fun n => hB (n + k)⟩

theorem Bounded.of_shift (k : ℕ) (h : Bounded fun n => u (n + k)) : Bounded u := by
  induction k with
  | zero => exact h
  | succ k ih =>
      apply ih
      rcases h with ⟨B, hB⟩
      refine ⟨max |u k| B, fun n => ?_⟩
      cases n with
      | zero =>
          show |u (0 + k)| ≤ _
          rw [Nat.zero_add]
          exact le_max_left _ _
      | succ n =>
          have hlater : |u (n + (k + 1))| ≤ B := hB n
          show |u (n + 1 + k)| ≤ _
          rw [Nat.add_right_comm]
          exact hlater.trans (le_max_right _ _)

theorem Merge.congr (hu : ∀ n, u n = u' n) (hv : ∀ n, v n = v' n) (h : Merge u v) :
    Merge u' v' := by
  rwa [← funext hu, ← funext hv]

/-- A difference that is bounded by one that goes to 0. -/
theorem merge_of_le {d : ℕ → ℝ} (hd : Tendsto d atTop (𝓝 0)) (h : ∀ n, |u n - v n| ≤ d n) :
    Merge u v :=
  (tendsto_zero_iff_abs_tendsto_zero _).mpr (squeeze_zero (fun _ => abs_nonneg _) h hd)

theorem Merge.abs (h : Merge u v) : Tendsto (fun n => |u n - v n|) atTop (𝓝 0) := by
  have habs := Filter.Tendsto.abs h
  rwa [abs_zero] at habs

/-! ## Arithmetic -/

theorem Bounded.nonneg (h : Bounded u) : ∃ B, 0 ≤ B ∧ ∀ n, |u n| ≤ B := by
  rcases h with ⟨B, hB⟩
  exact ⟨B, (abs_nonneg _).trans (hB 0), hB⟩

theorem Bounded.sub (hu : Bounded u) (hv : Bounded v) : Bounded fun n => u n - v n := by
  rcases hu with ⟨B, hB⟩
  rcases hv with ⟨C, hC⟩
  refine ⟨B + C, fun n => ?_⟩
  exact (abs_sub _ _).trans (add_le_add (hB n) (hC n))

theorem Bounded.mul (hu : Bounded u) (hv : Bounded v) : Bounded fun n => u n * v n := by
  rcases hu.nonneg with ⟨B, hB₀, hB⟩
  rcases hv with ⟨C, hC⟩
  refine ⟨B * C, fun n => ?_⟩
  rw [abs_mul]
  exact mul_le_mul (hB n) (hC n) (abs_nonneg _) hB₀

theorem Bounded.const_mul (c : ℝ) (hu : Bounded u) : Bounded fun n => c * u n :=
  Bounded.mul ⟨|c|, fun _ => le_rfl⟩ hu

theorem Merge.const_mul (c : ℝ) (h : Merge u v) : Merge (fun n => c * u n) fun n => c * v n := by
  have hmul := Filter.Tendsto.const_mul c h
  rw [mul_zero] at hmul
  exact hmul.congr fun n => mul_sub c (u n) (v n)

theorem Merge.add_const (c : ℝ) (h : Merge u v) : Merge (fun n => u n + c) fun n => v n + c :=
  Filter.Tendsto.congr (fun n => (add_sub_add_right_eq_sub (u n) (v n) c).symm) h

theorem Merge.sub (hu : Merge u u') (hv : Merge v v') :
    Merge (fun n => u n - v n) fun n => u' n - v' n := by
  have hsub := Filter.Tendsto.sub hu hv
  rw [sub_zero] at hsub
  exact hsub.congr fun n => by ring

theorem Merge.mul (hu : Merge u u') (hv : Merge v v') (hu' : Bounded u') (hbv : Bounded v) :
    Merge (fun n => u n * v n) fun n => u' n * v' n := by
  rcases hu' with ⟨B, hB⟩
  rcases hbv with ⟨C, hC⟩
  have hsum := (hu.abs.mul_const C).add (hv.abs.const_mul B)
  rw [zero_mul, mul_zero, add_zero] at hsum
  refine merge_of_le hsum fun n => ?_
  have hsplit : u n * v n - u' n * v' n = (u n - u' n) * v n + u' n * (v n - v' n) := by ring
  rw [hsplit]
  refine (abs_add_le _ _).trans (add_le_add ?_ ?_)
  · rw [abs_mul]
    exact mul_le_mul_of_nonneg_left (hC n) (abs_nonneg _)
  · rw [abs_mul]
    exact mul_le_mul_of_nonneg_right (hB n) (abs_nonneg _)

/-- Inverses of what is never below `c`. -/
theorem Merge.inv (h : Merge v v') {c : ℝ} (hc : 0 < c) (hcv : ∀ n, c ≤ v n)
    (hcv' : ∀ n, c ≤ v' n) : Merge (fun n => (v n)⁻¹) fun n => (v' n)⁻¹ := by
  have hdiff := h.abs.const_mul (c⁻¹ * c⁻¹)
  rw [mul_zero] at hdiff
  refine merge_of_le hdiff fun n => ?_
  have hpos : 0 < v n := hc.trans_le (hcv n)
  have hpos' : 0 < v' n := hc.trans_le (hcv' n)
  have hsplit : (v n)⁻¹ - (v' n)⁻¹ = (v n)⁻¹ * (v' n)⁻¹ * (v' n - v n) := by
    field_simp
  have hprod : (v n)⁻¹ * (v' n)⁻¹ ≤ c⁻¹ * c⁻¹ :=
    mul_le_mul (inv_anti₀ hc (hcv n)) (inv_anti₀ hc (hcv' n)) (inv_nonneg.mpr hpos'.le)
      (inv_nonneg.mpr hc.le)
  rw [hsplit, abs_mul, abs_of_pos (mul_pos (inv_pos.mpr hpos) (inv_pos.mpr hpos')),
    abs_sub_comm (v' n)]
  exact mul_le_mul_of_nonneg_right hprod (abs_nonneg _)

theorem bounded_inv {c : ℝ} (hc : 0 < c) (hcv : ∀ n, c ≤ v n) : Bounded fun n => (v n)⁻¹ := by
  refine ⟨c⁻¹, fun n => ?_⟩
  rw [abs_of_pos (inv_pos.mpr (hc.trans_le (hcv n)))]
  exact inv_anti₀ hc (hcv n)

/-! ## Square roots and maxima -/

theorem abs_sqrt_sub_sqrt_le {a b : ℝ} (ha : 0 ≤ a) (hb : 0 ≤ b) :
    |Real.sqrt a - Real.sqrt b| ≤ Real.sqrt |a - b| := by
  apply Real.abs_le_sqrt
  have hroots : |Real.sqrt a - Real.sqrt b| ≤ Real.sqrt a + Real.sqrt b := by
    have hsub := abs_sub (Real.sqrt a) (Real.sqrt b)
    rwa [abs_of_nonneg (Real.sqrt_nonneg a), abs_of_nonneg (Real.sqrt_nonneg b)] at hsub
  have hfactor : a - b = (Real.sqrt a - Real.sqrt b) * (Real.sqrt a + Real.sqrt b) := by
    have hsa := Real.mul_self_sqrt ha
    have hsb := Real.mul_self_sqrt hb
    linarith
  calc (Real.sqrt a - Real.sqrt b) ^ 2
      = |Real.sqrt a - Real.sqrt b| * |Real.sqrt a - Real.sqrt b| := by
        rw [← sq, sq_abs]
    _ ≤ |Real.sqrt a - Real.sqrt b| * (Real.sqrt a + Real.sqrt b) :=
        mul_le_mul_of_nonneg_left hroots (abs_nonneg _)
    _ = |a - b| := by
        rw [hfactor, abs_mul,
          abs_of_nonneg (add_nonneg (Real.sqrt_nonneg a) (Real.sqrt_nonneg b))]

theorem Merge.sqrt (h : Merge u v) (hu : ∀ n, 0 ≤ u n) (hv : ∀ n, 0 ≤ v n) :
    Merge (fun n => Real.sqrt (u n)) fun n => Real.sqrt (v n) := by
  have hroot := (Real.continuous_sqrt.tendsto 0).comp h.abs
  rw [Real.sqrt_zero] at hroot
  exact merge_of_le hroot fun n => abs_sqrt_sub_sqrt_le (hu n) (hv n)

theorem Bounded.sqrt (h : Bounded u) : Bounded fun n => Real.sqrt (u n) := by
  rcases h with ⟨B, hB⟩
  refine ⟨Real.sqrt B, fun n => ?_⟩
  rw [abs_of_nonneg (Real.sqrt_nonneg _)]
  exact Real.sqrt_le_sqrt ((le_abs_self _).trans (hB n))

/-- The maximum of finitely many sequences. -/
theorem Merge.runningMax {m : ℝ} {f g : ℕ → ℕ → ℝ} {k : ℕ}
    (h : ∀ j < k, Merge (fun n => f n j) fun n => g n j) :
    Merge (fun n => AudioProc.runningMax m (f n) k) fun n => AudioProc.runningMax m (g n) k := by
  induction k with
  | zero => exact Merge.refl _
  | succ k ih =>
      have hold := (ih fun j hj => h j (Nat.lt_succ_of_lt hj)).abs
      have hmax := hold.max (h k k.lt_succ_self).abs
      rw [max_self] at hmax
      refine merge_of_le hmax fun n => ?_
      rw [runningMax_succ, runningMax_succ]
      exact abs_max_sub_max_le_max _ _ _ _

/-! ## Recursive filters -/

variable {q : ℝ} {e e' : ℕ → ℝ}

theorem Bounded.filter (hq₀ : 0 ≤ q) (hq : q < 1) (hu : ∀ n, u (n + 1) = q * u n + e n)
    (he : Bounded e) : Bounded u := by
  rcases he with ⟨B, hB⟩
  -- the state cannot leave the interval of what it is fed with, once it is scaled up
  refine ⟨max |u 0| (B / (1 - q)), fun n => ?_⟩
  have hgap : 0 < 1 - q := sub_pos.mpr hq
  induction n with
  | zero => exact le_max_left _ _
  | succ n ih =>
      have hfed : B ≤ (1 - q) * max |u 0| (B / (1 - q)) := by
        have hle := mul_le_mul_of_nonneg_left (le_max_right |u 0| (B / (1 - q))) hgap.le
        rwa [mul_div_cancel₀ B hgap.ne'] at hle
      have hstate : q * |u n| ≤ q * max |u 0| (B / (1 - q)) := mul_le_mul_of_nonneg_left ih hq₀
      calc |u (n + 1)| ≤ |q * u n| + |e n| := by
            rw [hu]
            exact abs_add_le _ _
        _ = q * |u n| + |e n| := by rw [abs_mul, abs_of_nonneg hq₀]
        _ ≤ max |u 0| (B / (1 - q)) := by linarith [hB n]

/-- What is left of a difference after `k` steps, when less than `δ` comes in at each. -/
theorem filter_difference_le {d f : ℕ → ℝ} {N : ℕ} {δ : ℝ} (hq₀ : 0 ≤ q) (hq : q < 1)
    (hd : ∀ n, d (n + 1) = q * d n + f n) (hf : ∀ n ≥ N, |f n| ≤ (1 - q) * δ) (k : ℕ) :
    |d (N + k)| ≤ q ^ k * |d N| + δ := by
  have hδ : 0 ≤ δ := by
    have hpos := (abs_nonneg _).trans (hf N le_rfl)
    exact nonneg_of_mul_nonneg_right hpos (sub_pos.mpr hq)
  induction k with
  | zero =>
      rw [pow_zero, one_mul, Nat.add_zero]
      exact le_add_of_nonneg_right hδ
  | succ k ih =>
      have hstep := mul_le_mul_of_nonneg_left ih hq₀
      calc |d (N + (k + 1))| ≤ |q * d (N + k)| + |f (N + k)| := by
            rw [← Nat.add_assoc, hd]
            exact abs_add_le _ _
        _ = q * |d (N + k)| + |f (N + k)| := by rw [abs_mul, abs_of_nonneg hq₀]
        _ ≤ q * (q ^ k * |d N| + δ) + (1 - q) * δ :=
            add_le_add hstep (hf _ (Nat.le_add_right N k))
        _ = q ^ (k + 1) * |d N| + δ := by
            rw [pow_succ]
            ring

/-- **Recursive filters forget** where they started. -/
theorem Merge.filter (hq₀ : 0 ≤ q) (hq : q < 1) (hu : ∀ n, u (n + 1) = q * u n + e n)
    (hv : ∀ n, v (n + 1) = q * v n + e' n) (he : Merge e e') : Merge u v := by
  rw [merge_iff]
  intro ε hε
  have hgap : 0 < 1 - q := sub_pos.mpr hq
  have hd : ∀ n, u (n + 1) - v (n + 1) = q * (u n - v n) + (e n - e' n) := by
    intro n
    rw [hu, hv]
    ring
  -- from `N` on little comes in, and from `N + K` on little of the old difference is left
  rcases merge_iff.mp he ((1 - q) * (ε / 2)) (mul_pos hgap (half_pos hε)) with ⟨N, hN⟩
  have hold : Tendsto (fun k => q ^ k * |u N - v N|) atTop (𝓝 0) := by
    have hpow := (tendsto_pow_atTop_nhds_zero_of_lt_one hq₀ hq).mul_const |u N - v N|
    rwa [zero_mul] at hpow
  rcases Metric.tendsto_atTop.mp hold (ε / 2) (half_pos hε) with ⟨K, hK⟩
  refine ⟨N + K, fun n hn => ?_⟩
  obtain ⟨k, rfl⟩ : ∃ k, n = N + k := ⟨n - N, by omega⟩
  have hleft := hK k (by omega)
  rw [Real.dist_eq, sub_zero] at hleft
  have hdiff := filter_difference_le (d := fun n => u n - v n) hq₀ hq hd
    (fun n hn => (hN n hn).le) k
  calc |u (N + k) - v (N + k)| ≤ q ^ k * |u N - v N| + ε / 2 := hdiff
    _ < ε / 2 + ε / 2 := add_lt_add_left ((le_abs_self _).trans_lt hleft) _
    _ = ε := add_halves ε

end

end AudioProc
