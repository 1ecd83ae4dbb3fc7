import AudioProc.Ewma
import AudioProc.Refinement
import Mathlib.Tactic.Positivity

/-!
# The normalized correlations are below one

In exact arithmetic the covariance at delay `d` and the two deviations it is divided by
are exponentially weighted sums over the same frames: the covariance of the capture
powers with the render powers `d` frames older, the capture variance, and the render
variance as it stood `d` frames ago. The weighted Cauchy–Schwarz inequality between them
is preserved by every frame (`covariance_sq_le`), so every correlation is below 1, the
delay loop leaves a likelihood in [0, 1), and the diagnostic branch never runs.
-/

namespace AudioProc

namespace History

theorem renderMean_real (h : List (Frame ℝ)) :
    renderMean h = (sideStats Frame.render h).mean := by
  rw [← renderStats_eq]
  cases h <;> rfl

theorem renderStdDev_real (h : List (Frame ℝ)) :
    renderStdDev h = Real.sqrt (sideStats Frame.render h).variance := by
  rw [← renderStats_eq]
  cases h with
  | nil => exact Real.sqrt_zero.symm
  | cons p h => rfl

theorem captureStdDev_real (h : List (Frame ℝ)) :
    (captureStats h).stdDeviation = Real.sqrt (sideStats Frame.capture h).variance := by
  rw [captureStats_eq, MeanVarianceEstimator.stdDeviation_real]

theorem sideStats_mean_cons (side : Frame ℝ → ℝ) (p : Frame ℝ) (h : List (Frame ℝ)) :
    (sideStats side (p :: h)).mean =
      999 / 1000 * (sideStats side h).mean + 1 / 1000 * side p :=
  MeanVarianceEstimator.update_mean_real _ _

theorem sideStats_variance_cons (side : Frame ℝ → ℝ) (p : Frame ℝ) (h : List (Frame ℝ)) :
    (sideStats side (p :: h)).variance = 999 / 1000 * (sideStats side h).variance +
      1 / 1000 * (side p - (sideStats side (p :: h)).mean) ^ 2 :=
  MeanVarianceEstimator.update_variance_real _ _

theorem sideStats_variance_nonneg (side : Frame ℝ → ℝ) (h : List (Frame ℝ)) :
    0 ≤ (sideStats side h).variance := by
  induction h with
  | nil => exact le_rfl
  | cons p h ih => exact MeanVarianceEstimator.update_variance_nonneg ih (side p)

theorem covariance_cons (d : ℕ) (p : Frame ℝ) (h : List (Frame ℝ)) :
    (covariance d (p :: h)).covariance = 999 / 1000 * (covariance d h).covariance +
      1 / 1000 * (p.capture - (sideStats Frame.capture (p :: h)).mean) *
        (renderPower ((p :: h).drop d) - (sideStats Frame.render ((p :: h).drop d)).mean) := by
  rw [covariance, NormalizedCovarianceEstimator.update_covariance_real, renderMean_real,
    captureStats_eq]

/-- The correlation is the covariance over the two deviations it goes with. -/
theorem correlation_eq (h : List (Frame ℝ)) (d : ℕ) :
    correlation h d = (covariance d h).covariance /
      ((captureStats h).stdDeviation * renderStdDev (h.drop d) + 1 / 10000) := by
  cases h with
  | nil => exact (zero_div _).symm
  | cons p h =>
      exact NormalizedCovarianceEstimator.update_normalizedCrossCorrelation_real ..

/-- The delayed history either has not started or is one frame longer than before. -/
theorem drop_cons_cases (d : ℕ) (p : Frame ℝ) (h : List (Frame ℝ)) :
    ((p :: h).drop d = [] ∧ h.drop d = []) ∨ ∃ q, (p :: h).drop d = q :: h.drop d := by
  cases hd : (p :: h).drop d with
  | nil =>
      left
      refine ⟨rfl, ?_⟩
      rw [List.drop_eq_nil_iff] at hd ⊢
      rw [List.length_cons] at hd
      omega
  | cons q t =>
      -- one frame older is one frame fewer
      right
      have htail : t = h.drop d := by
        have := congrArg List.tail hd
        rw [List.tail_drop, List.drop_succ_cons] at this
        exact this.symm
      exact ⟨q, by rw [htail]⟩

/-- **Cauchy–Schwarz, frame by frame**: the covariance at delay `d` is bounded by the
capture variance and the render variance of `d` frames ago. -/
theorem covariance_sq_le (d : ℕ) (h : List (Frame ℝ)) :
    (covariance d h).covariance ^ 2 ≤
      (sideStats Frame.capture h).variance *
        (sideStats Frame.render (h.drop d)).variance := by
  induction h with
  | nil => simp [covariance, sideStats]
  | cons p h ih =>
      have hV := sideStats_variance_nonneg Frame.capture h
      have hW := sideStats_variance_nonneg Frame.render (h.drop d)
      rw [covariance_cons, sideStats_variance_cons]
      rcases drop_cons_cases d p h with ⟨hnew, hold⟩ | ⟨q, hq⟩
      · -- no render value is old enough: the covariance is still 0
        rw [hold] at ih
        have hzero : (covariance d h).covariance ^ 2 ≤ 0 := by
          simpa [sideStats] using ih
        have hcov : (covariance d h).covariance = 0 := by
          have := le_antisymm hzero (sq_nonneg _)
          exact pow_eq_zero_iff (two_ne_zero) |>.mp this
        simp [hnew, hcov, renderPower, sideStats]
      · rw [hq, sideStats_variance_cons]
        exact Ewma.weighted_cauchy_step (by norm_num) (by norm_num) hV hW ih _ _

/-- Every correlation is strictly between -1 and 1. -/
theorem abs_correlation_lt_one (h : List (Frame ℝ)) (d : ℕ) : |correlation h d| < 1 := by
  have hcov : |(covariance d h).covariance| ≤
      (captureStats h).stdDeviation * renderStdDev (h.drop d) := by
    rw [captureStdDev_real, renderStdDev_real,
      ← Real.sqrt_mul (sideStats_variance_nonneg Frame.capture h)]
    exact Real.abs_le_sqrt (covariance_sq_le d h)
  -- the regulariser keeps the denominator positive, and above the covariance
  have hpos : 0 < (captureStats h).stdDeviation * renderStdDev (h.drop d) + 1 / 10000 := by
    linarith [(abs_nonneg (covariance d h).covariance).trans hcov]
  rw [correlation_eq, abs_div, abs_of_pos hpos, div_lt_one hpos]
  linarith

theorem loopLikelihood_nonneg (h : List (Frame ℝ)) : 0 ≤ loopLikelihood h :=
  start_le_runningMax

theorem loopLikelihood_lt_one (h : List (Frame ℝ)) : loopLikelihood h < 1 := by
  apply runningMax_lt one_pos
  intro d _
  exact (le_abs_self _).trans_lt (abs_correlation_lt_one h d)

end History

namespace ResidualEchoDetector

/-- A call whose loop stays below the diagnostic threshold prints nothing. -/
theorem processFrame_printed {d : ResidualEchoDetector ℝ} {r c : ℝ}
    (hlow : (d.loopResult r c).echoLikelihood < 1) :
    (d.processFrame r c).printed = d.printed ∧
      (d.processFrame r c).logCounter = d.logCounter := by
  have hquiet : ¬ ((1.1 : ℝ) < (d.loopResult r c).echoLikelihood ∧ d.logCounter < 5 ∧
      (d.loopResult r c).bestDelay ≠ -1) := by
    rintro ⟨hhigh, -⟩
    norm_num at hhigh
    linarith
  simp only [processFrame, logState]
  split_ifs with hbranch
  · exact absurd hbranch hquiet
  · exact ⟨rfl, rfl⟩

/-- The delay loop of a capture call on a detector with history `h`. -/
theorem Tracks.popRender_loopResult {d : ResidualEchoDetector ℝ} {h : List (Frame ℝ)}
    (ht : d.Tracks h) (r c : ℝ) :
    0 ≤ (d.popRender.2.loopResult r c).echoLikelihood ∧
      (d.popRender.2.loopResult r c).echoLikelihood < 1 := by
  rw [ht.popRender.loopResult]
  exact ⟨History.loopLikelihood_nonneg _, History.loopLikelihood_lt_one _⟩

/-- No call prints anything. -/
theorem Tracks.step_printed {d : ResidualEchoDetector ℝ} {h : List (Frame ℝ)}
    (ht : d.Tracks h) (c : Call ℝ) :
    (d.step c).printed = d.printed ∧ (d.step c).logCounter = d.logCounter := by
  cases c with
  | analyzeRenderAudio x =>
      rcases d.analyzeRenderAudio_buffering x with ⟨b, n, hd⟩
      rw [ResidualEchoDetector.step, hd]
      exact ⟨rfl, rfl⟩
  | analyzeCaptureAudio y =>
      have hpop : d.popRender.2.printed = d.printed ∧
          d.popRender.2.logCounter = d.logCounter := by
        rcases d.popRender_buffering with ⟨b, hd⟩
        rw [hd]
        exact ⟨rfl, rfl⟩
      rw [ResidualEchoDetector.step, analyzeCaptureAudio_eq]
      cases d.nextRenderPower with
      | none => exact hpop
      | some r =>
          rcases processFrame_printed (ht.popRender_loopResult r (power y)).2 with
            ⟨hprinted, hcounter⟩
          exact ⟨hprinted.trans hpop.1, hcounter.trans hpop.2⟩
  | initializeDetector => exact ⟨rfl, rfl⟩

/-- The diagnostic branch is never entered in a run. -/
theorem printed_run (calls : List (Call ℝ)) :
    (run calls).printed = [] ∧ (run calls).logCounter = 0 := by
  have hrun : (run calls).Tracks (history calls) ∧ (run calls).printed = [] ∧
      (run calls).logCounter = 0 := by
    refine run_history_invariant
      (fun d h => d.Tracks h ∧ d.printed = [] ∧ d.logCounter = 0) ?_ ?_ calls
    · rintro d h c ⟨ht, hprinted, hcounter⟩
      rcases ht.step_printed c with ⟨hprinted', hcounter'⟩
      exact ⟨ht.step c, hprinted'.trans hprinted, hcounter'.trans hcounter⟩
    · exact ⟨tracks_new, rfl, rfl⟩
  exact hrun.2

/-- **The correlations are normalized**: after every run, every delay correlates by less
than 1, the delay loop of a capture call made then leaves a likelihood in [0, 1), and
nothing was printed so far. -/
theorem correlations_normalized (calls : List (Call ℝ)) :
    (∀ d : Fin kLookbackFrames,
      |((run calls).covariances.get d).normalizedCrossCorrelation| < 1) ∧
    (∀ r y, (run calls).nextRenderPower = some r →
      0 ≤ ((run calls).popRender.2.loopResult r (power y)).echoLikelihood ∧
      ((run calls).popRender.2.loopResult r (power y)).echoLikelihood < 1) ∧
    (run calls).printed = [] ∧ (run calls).logCounter = 0 := by
  have ht := tracks_run calls
  refine ⟨?_, ?_, printed_run calls⟩
  · intro d
    rw [ht.get_covariances]
    exact History.abs_correlation_lt_one (history calls) d
  · intro r y _
    exact ht.popRender_loopResult r (power y)

end ResidualEchoDetector

end AudioProc
