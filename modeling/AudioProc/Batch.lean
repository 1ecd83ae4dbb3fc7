import AudioProc.Correlation
import AudioProc.EstimatorRuns

/-!
# The incremental estimates are batch estimates

The detector keeps one mean and one variance per side and one covariance per delay, all
overwritten at every frame. Written over the whole history, with `c k` and `r k` the two
powers of its `k`-th frame and `r k = 0` before the first one, they are exponentially
weighted sums: the means of `c` and `r`, and the weighted covariance of `c` with `r`
delayed by `d`.

The identity behind it is `Ewma.ewCov_succ`: the update subtracts means that are already
the new ones.
-/

namespace AudioProc

open Ewma Finset

universe u

namespace History

/-! ## The frames of a history by number -/

section Powers

variable {F : Type u} [Zero F]

/-- The power `side` takes from the `k`-th frame, counted from 1, oldest first; 0 where
there is no such frame. -/
def powerAt (side : Frame F → F) : List (Frame F) → ℕ → F
  | [], _ => 0
  | p :: h, k => if k = h.length + 1 then side p else powerAt side h k

/-- The capture power of the `k`-th frame. -/
def capturePowerAt (h : List (Frame F)) (k : ℕ) : F := powerAt Frame.capture h k

/-- The popped render power of the `k`-th frame. -/
def renderPowerAt (h : List (Frame F)) (k : ℕ) : F := powerAt Frame.render h k

@[simp] theorem powerAt_zero (side : Frame F → F) (h : List (Frame F)) :
    powerAt side h 0 = 0 := by
  induction h with
  | nil => rfl
  | cons p h ih => rw [powerAt, if_neg (Nat.succ_ne_zero _).symm, ih]

theorem powerAt_last (side : Frame F → F) (p : Frame F) (h : List (Frame F)) :
    powerAt side (p :: h) (h.length + 1) = side p :=
  if_pos rfl

theorem powerAt_cons (side : Frame F → F) (p : Frame F) {h : List (Frame F)} {k : ℕ}
    (hk : k ≤ h.length) : powerAt side (p :: h) k = powerAt side h k :=
  if_neg (Nat.ne_of_lt (Nat.lt_succ_of_le hk))

/-- Forgetting the newest frames does not renumber the others. -/
theorem powerAt_drop (side : Frame F → F) {h : List (Frame F)} {d k : ℕ}
    (hk : k ≤ h.length - d) : powerAt side (h.drop d) k = powerAt side h k := by
  induction d generalizing h with
  | zero => rfl
  | succ d ih =>
      cases h with
      | nil => rfl
      | cons p h =>
          -- the frame dropped is the newest one, numbered above `k`
          rw [List.length_cons, Nat.succ_sub_succ] at hk
          rw [List.drop_succ_cons, ih hk, powerAt_cons side p (by omega)]

end Powers

theorem renderPower_eq (h : List (Frame ℝ)) : renderPower h = renderPowerAt h h.length := by
  cases h with
  | nil => rfl
  | cons p h => exact (powerAt_last Frame.render p h).symm

/-! ## Means and variances -/

/-- The statistics of a side are a run of the estimator over its powers. -/
theorem sideStats_eq_run (side : Frame ℝ → ℝ) (h : List (Frame ℝ)) :
    sideStats side h =
      Machine.run MeanVarianceEstimator.update .new (h.map side).reverse := by
  induction h with
  | nil => rfl
  | cons p h ih =>
      rw [List.map_cons, List.reverse_cons, Machine.run_concat, ← ih]
      rfl

theorem powerAt_eq_valueAt (side : Frame ℝ → ℝ) (h : List (Frame ℝ)) (k : ℕ) :
    powerAt side h k = valueAt (h.map side).reverse k := by
  induction h with
  | nil =>
      cases k with
      | zero => rfl
      | succ k => rfl
  | cons p h ih =>
      have hlen : (h.map side).reverse.length = h.length := by simp
      rw [List.map_cons, List.reverse_cons]
      rcases Nat.lt_trichotomy k (h.length + 1) with hlt | rfl | hgt
      · rw [powerAt_cons side p (Nat.le_of_lt_succ hlt), ih, valueAt_concat]
        omega
      · rw [powerAt_last, ← hlen, valueAt_last]
      · -- no such frame
        rw [powerAt, if_neg (Nat.ne_of_gt hgt), ih, valueAt_of_lt (by omega),
          valueAt_of_lt (by simp; omega)]

theorem sideStats_mean_eq (side : Frame ℝ → ℝ) (h : List (Frame ℝ)) :
    (sideStats side h).mean = ewSum (1 / 1000) (999 / 1000) (powerAt side h) h.length := by
  have hvalues : powerAt side h = valueAt (h.map side).reverse := by
    funext k
    exact powerAt_eq_valueAt side h k
  rw [sideStats_eq_run, MeanVarianceEstimator.run_mean, hvalues, List.length_reverse,
    List.length_map]

theorem sideStats_variance_eq (side : Frame ℝ → ℝ) (h : List (Frame ℝ)) :
    (sideStats side h).variance =
      ewCov (1 / 1000) (999 / 1000) (powerAt side h) (powerAt side h) h.length := by
  have hvalues : powerAt side h = valueAt (h.map side).reverse := by
    funext k
    exact powerAt_eq_valueAt side h k
  rw [sideStats_eq_run, MeanVarianceEstimator.run_variance, hvalues, List.length_reverse,
    List.length_map]

/-! ## The history delayed by `d` frames -/

theorem renderPower_drop (h : List (Frame ℝ)) (d : ℕ) :
    renderPower (h.drop d) = renderPowerAt h (h.length - d) := by
  rw [renderPower_eq, List.length_drop]
  exact powerAt_drop Frame.render le_rfl

theorem renderStats_mean_drop (h : List (Frame ℝ)) (d : ℕ) :
    (sideStats Frame.render (h.drop d)).mean =
      ewSum (1 / 1000) (999 / 1000) (fun k => renderPowerAt h (k - d)) h.length := by
  rw [sideStats_mean_eq, List.length_drop,
    ewSum_delay (v := renderPowerAt h) _ _ (powerAt_zero Frame.render h)]
  exact ewSum_congr _ _ fun k _ hk => powerAt_drop Frame.render hk

theorem renderStats_variance_drop (h : List (Frame ℝ)) (d : ℕ) :
    (sideStats Frame.render (h.drop d)).variance = ewCov (1 / 1000) (999 / 1000)
      (fun k => renderPowerAt h (k - d)) (fun k => renderPowerAt h (k - d)) h.length := by
  have hzero : renderPowerAt h 0 = 0 := powerAt_zero Frame.render h
  have hdrop : ∀ k, 1 ≤ k → k ≤ h.length - d →
      powerAt Frame.render (h.drop d) k = renderPowerAt h k := by
    intro k _ hk
    exact powerAt_drop Frame.render hk
  rw [sideStats_variance_eq, List.length_drop, ewCov_delay _ _ hzero hzero,
    ewCov_congr _ _ hdrop hdrop]

/-! ## Covariances -/

/-- **The covariance of delay `d` is the batch covariance** of the capture powers and the
render powers delayed by `d`. -/
theorem covariance_eq (d : ℕ) (h : List (Frame ℝ)) :
    (covariance d h).covariance = ewCov (1 / 1000) (999 / 1000) (capturePowerAt h)
      (fun k => renderPowerAt h (k - d)) h.length := by
  induction h with
  | nil => exact (ewCov_zero _ _ _ _).symm
  | cons p h ih =>
      -- the new frame changes no power of the old ones, so the old covariance stands
      have hc : ∀ k, 1 ≤ k → k ≤ h.length → capturePowerAt h k = capturePowerAt (p :: h) k := by
        intro k _ hk
        exact (powerAt_cons Frame.capture p hk).symm
      have hr : ∀ k, 1 ≤ k → k ≤ h.length →
          renderPowerAt h (k - d) = renderPowerAt (p :: h) (k - d) := by
        intro k _ hk
        have hkd : k - d ≤ h.length := by omega
        exact (powerAt_cons Frame.render p hkd).symm
      have hnew : capturePowerAt (p :: h) (h.length + 1) = p.capture :=
        powerAt_last Frame.capture p h
      rw [covariance_cons, ih, ewCov_congr _ _ hc hr, sideStats_mean_eq, renderPower_drop,
        renderStats_mean_drop, List.length_cons, ewCov_succ _ _ (by norm_num), hnew]
      rfl

end History

namespace ResidualEchoDetector

/-- **Incremental is batch**: after every run with `n` processed captures, `c k` and `r k`
the powers of the `k`-th of them, the covariance of every delay is the exponentially
weighted covariance of the capture powers with the delayed render powers, scaled by
`999 / 1000`. -/
theorem covariance_is_batch (calls : List (Call ℝ)) (d : Fin kLookbackFrames) :
    let n := (history calls).length
    let c := History.capturePowerAt (history calls)
    let r := History.renderPowerAt (history calls)
    let a : ℝ := 1 / 1000
    let q : ℝ := 1 - a
    ((run calls).covariances.get d).covariance =
      q * (∑ k ∈ Icc 1 n, a * q ^ (n - k) * (c k * r (k - d)) -
        (∑ k ∈ Icc 1 n, a * q ^ (n - k) * c k) *
          ∑ j ∈ Icc 1 (n - d), a * q ^ (n - d - j) * r j) := by
  intro n c r a q
  have hq : q = 999 / 1000 := by norm_num [q, a]
  have hzero : r 0 = 0 := History.powerAt_zero Frame.render _
  have hcov : ((run calls).covariances.get d).covariance =
      (History.covariance d (history calls)).covariance := by
    rw [(tracks_run calls).get_covariances]
  rw [hcov, History.covariance_eq, ewCov, ewSum_delay (v := r) _ _ hzero, hq]
  rfl

end ResidualEchoDetector

end AudioProc
