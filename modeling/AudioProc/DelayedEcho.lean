import AudioProc.Batch
import AudioProc.Likelihood

/-!
# Exact delayed echoes are detected

When the capture powers are the render powers `d` frames ago times a gain `g`, the batch
form of the estimates (`Batch`) makes the capture variance `g ^ 2 * V` and the covariance
at delay `d` equal to `g * V`, where `V` is the render variance of `d` frames ago. The
correlation at `d` is then `g V / (g V + 0.0001)`, the delay loop takes at least that, and
the reliability `1 - 0.999 ^ n` is the only other factor.
-/

namespace AudioProc

open Ewma

namespace History

/-- The capture side of a history is the render side, `d` frames late and times `g`. -/
def IsEcho (g : ℝ) (d : ℕ) (h : List (Frame ℝ)) : Prop :=
  ∀ k, 1 ≤ k → k ≤ h.length → capturePowerAt h k = g * renderPowerAt h (k - d)

theorem IsEcho.captureStats_variance {g : ℝ} {d : ℕ} {h : List (Frame ℝ)}
    (he : IsEcho g d h) :
    (sideStats Frame.capture h).variance =
      g ^ 2 * (sideStats Frame.render (h.drop d)).variance := by
  have he : ∀ k, 1 ≤ k → k ≤ h.length →
      powerAt Frame.capture h k = g * renderPowerAt h (k - d) := he
  rw [sideStats_variance_eq, ewCov_congr _ _ he he, ewCov_smul, ← renderStats_variance_drop]
  ring

theorem IsEcho.covariance {g : ℝ} {d : ℕ} {h : List (Frame ℝ)} (he : IsEcho g d h) :
    (covariance d h).covariance = g * (sideStats Frame.render (h.drop d)).variance := by
  have hsame : ∀ k, 1 ≤ k → k ≤ h.length →
      renderPowerAt h (k - d) = 1 * renderPowerAt h (k - d) := by
    intro k _ _
    exact (one_mul _).symm
  rw [covariance_eq, ewCov_congr _ _ he hsame, ewCov_smul, ← renderStats_variance_drop]
  ring

/-- The correlation at the delay of the echo. -/
theorem IsEcho.correlation {g : ℝ} (hg : 0 ≤ g) {d : ℕ} {h : List (Frame ℝ)}
    (he : IsEcho g d h) :
    correlation h d = g * (sideStats Frame.render (h.drop d)).variance /
      (g * (sideStats Frame.render (h.drop d)).variance + 1 / 10000) := by
  have hV := sideStats_variance_nonneg Frame.render (h.drop d)
  -- the deviations of the two sides are `g * √V` and `√V`
  have hsigma : Real.sqrt (g ^ 2 * (sideStats Frame.render (h.drop d)).variance) *
      Real.sqrt (sideStats Frame.render (h.drop d)).variance =
        g * (sideStats Frame.render (h.drop d)).variance := by
    rw [Real.sqrt_mul (sq_nonneg g), Real.sqrt_sq hg, mul_assoc, Real.mul_self_sqrt hV]
  rw [correlation_eq, he.covariance, captureStdDev_real, he.captureStats_variance,
    renderStdDev_real, hsigma]

/-- The likelihood of a history with an echo at a delay the detector looks at. -/
theorem IsEcho.echoLikelihood {g : ℝ} (hg : 0 ≤ g) {d : ℕ} (hd : d < kLookbackFrames)
    {h : List (Frame ℝ)} (he : IsEcho g d h) :
    (1 - 0.999 ^ h.length) * (g * (sideStats Frame.render (h.drop d)).variance /
      (g * (sideStats Frame.render (h.drop d)).variance + 0.0001)) ≤ echoLikelihood h := by
  have hrel : (1 - 0.999 ^ h.length : ℝ) = reliability h := by
    rw [reliability_eq]
    norm_num
  have hreg : (0.0001 : ℝ) = 1 / 10000 := by norm_num
  rw [hrel, hreg, ← he.correlation hg]
  cases h with
  | nil =>
      show 0 * History.correlation [] d ≤ 0
      rw [zero_mul]
  | cons p h =>
      rw [echoLikelihood_cons, mul_comm]
      exact mul_le_mul_of_nonneg_right (le_runningMax hd) (reliability_nonneg _)

end History

namespace ResidualEchoDetector

universe u

variable {F : Type u} [FloatMath F]

/-- The history of `d` frames ago is the history of an earlier moment of the run. -/
theorem exists_prefix_history (calls : List (Call F)) (d : ℕ) :
    ∃ pre, pre <+: calls ∧ history pre = (history calls).drop d := by
  induction calls using List.reverseRecOn generalizing d with
  | nil => exact ⟨[], List.prefix_rfl, List.drop_nil.symm⟩
  | append_singleton calls c ih =>
      -- a call that processes nothing leaves the moments found so far
      have hkeep : ∀ n, ∃ pre, pre <+: calls ++ [c] ∧ history pre = (history calls).drop n := by
        intro n
        rcases ih n with ⟨pre, hpre, hhist⟩
        exact ⟨pre, hpre.trans (List.prefix_append calls [c]), hhist⟩
      rw [history_concat]
      cases c with
      | analyzeRenderAudio x => exact hkeep d
      | analyzeCaptureAudio y =>
          rw [record]
          cases hnext : (run calls).nextRenderPower with
          | none => exact hkeep d
          | some r =>
              cases d with
              | zero =>
                  -- the frame just processed is the newest one
                  refine ⟨_, List.prefix_rfl, ?_⟩
                  rw [history_concat, record, hnext, List.drop_zero]
              | succ d => exact hkeep d
      | initializeDetector =>
          refine ⟨_, List.prefix_rfl, ?_⟩
          rw [history_concat, record, List.drop_nil]

/-- **Echo detection is complete on exact delayed echoes.** Take a run whose `n` processed
captures since the last `Initialize` have capture powers `g` times the render powers `d`
frames earlier, and the moment of that run at which `n - d` of them were processed. With
`V` the render variance estimate at that moment, the reported likelihood is at least
`(1 - 0.999 ^ n) * (g V / (g V + 0.0001))`. -/
theorem delayed_echo_detected (calls : List (Call ℝ)) (g : ℝ) (hg : 0 < g)
    (d : Fin kLookbackFrames) (hecho : History.IsEcho g d (history calls)) :
    (∃ pre, pre <+: calls ∧ history pre = (history calls).drop d) ∧
    ∀ pre, pre <+: calls → history pre = (history calls).drop d →
      let n := (history calls).length
      let V := (run pre).renderStatistics.variance
      (n ≤ d → V = 0) ∧
      (1 - 0.999 ^ n) * (g * V / (g * V + 0.0001)) ≤ (run calls).getMetrics.echoLikelihood := by
  refine ⟨exists_prefix_history calls d, ?_⟩
  intro pre _ hpre n V
  have hV : V = (History.sideStats Frame.render ((history calls).drop d)).variance := by
    rw [← hpre, ← History.renderStats_eq]
    exact congrArg MeanVarianceEstimator.variance (tracks_run pre).renderStatistics
  constructor
  · intro hn
    rw [hV, List.drop_of_length_le hn]
    rfl
  · rw [getMetrics_run, hV]
    exact hecho.echoLikelihood hg.le d.isLt

/-- Two frames whose capture side repeats the render side one frame late. -/
theorem delayed_echo_detected_one_late :
    let calls : List (Call ℝ) :=
      [.analyzeCaptureAudio [], .analyzeRenderAudio [1], .analyzeCaptureAudio [],
        .analyzeRenderAudio [], .analyzeCaptureAudio [1]]
    ∃ pre, pre <+: calls ∧ history pre = (history calls).drop 1 ∧
      (1 - 0.999 ^ 2) * (1 * (run pre).renderStatistics.variance /
        (1 * (run pre).renderStatistics.variance + 0.0001)) ≤
          (run calls).getMetrics.echoLikelihood := by
  intro calls
  have hhist : history calls = [⟨power [], power [1]⟩, ⟨power [1], power []⟩] := by
    rw [history_eq]
    rfl
  have hsilent : power ([] : List ℝ) = 0 := rfl
  have hecho : History.IsEcho 1 1 (history calls) := by
    rw [hhist, hsilent]
    intro k hk hk2
    have hcases : k = 1 ∨ k = 2 := by
      simp only [List.length_cons, List.length_nil] at hk2
      omega
    rcases hcases with rfl | rfl
    · simp [History.capturePowerAt, History.renderPowerAt, History.powerAt]
    · simp [History.capturePowerAt, History.renderPowerAt, History.powerAt]
  have hlength : (history calls).length = 2 := by rw [hhist]; rfl
  obtain ⟨⟨pre, hpre, hdrop⟩, hbound⟩ :=
    delayed_echo_detected calls 1 one_pos ⟨1, by decide⟩ hecho
  refine ⟨pre, hpre, hdrop, ?_⟩
  rw [← hlength]
  exact (hbound pre hpre hdrop).2

end ResidualEchoDetector

end AudioProc
