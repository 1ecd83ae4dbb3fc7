import AudioProc.ExactLikelihood
import AudioProc.PairedFrames

/-!
# Quiet signals

The regulariser in the correlations is compared with a product of two deviations, so that
signals of little power do not correlate. With samples of at most `A` on the render and `B` on
the capture side, powers are at most `A²` and `B²`, covariances at most `K = 0.999 A² B² / 4`, and
no metric is ever above `(1 - 0.999 ^ n) * (K / (K + 0.0001))`, whatever the signals are.
-/

namespace AudioProc

universe u

theorem power_le {x : List ℝ} {A : ℝ} (hx : ∀ v ∈ x, |v| ≤ A) : power x ≤ A ^ 2 := by
  have hfold : ∀ (acc : ℝ) (xs : List ℝ), (∀ v ∈ xs, |v| ≤ A) →
      xs.foldl (fun acc v => acc + v * v) acc ≤ acc + xs.length * A ^ 2 := by
    intro acc xs hxs
    induction xs generalizing acc with
    | nil => simp
    | cons v xs ih =>
        have hrest := ih (acc + v * v) fun w hw => hxs w (List.mem_cons_of_mem v hw)
        have hv : v * v ≤ A ^ 2 := by
          rw [← sq, ← sq_abs]
          exact pow_le_pow_left₀ (abs_nonneg v) (hxs v List.mem_cons_self) 2
        rw [List.foldl_cons, List.length_cons]
        push_cast
        linarith
  cases x with
  | nil => exact sq_nonneg A
  | cons v x =>
      have hsum := hfold 0 (v :: x) hx
      have hlength : (0 : ℝ) < ((v :: x).length : ℝ) := by
        rw [List.length_cons]
        positivity
      show List.foldl _ 0 (v :: x) / ((v :: x).length : ℝ) ≤ A ^ 2
      rw [div_le_iff₀ hlength]
      linarith

namespace History

/-- The powers of a history are at most these. -/
def Within (R C : ℝ) (h : List (Frame ℝ)) : Prop :=
  ∀ p ∈ h, (0 ≤ p.render ∧ p.render ≤ R) ∧ 0 ≤ p.capture ∧ p.capture ≤ C

theorem Within.drop {R C : ℝ} {h : List (Frame ℝ)} (hw : Within R C h) (d : ℕ) :
    Within R C (h.drop d) := fun p hp => hw p (List.mem_of_mem_drop hp)

theorem sideStats_variance_le {side : Frame ℝ → ℝ} {M : ℝ} (hM : 0 ≤ M) {h : List (Frame ℝ)}
    (hside : ∀ p ∈ h, 0 ≤ side p ∧ side p ≤ M) :
    (sideStats side h).variance ≤ 999 / 1000 * M ^ 2 / 4 := by
  have hvalues : ∀ v ∈ (h.map side).reverse, 0 ≤ v ∧ v ≤ M := by
    intro v hv
    rcases List.mem_map.mp (List.mem_reverse.mp hv) with ⟨p, hp, rfl⟩
    exact hside p hp
  have hvariance := MeanVarianceEstimator.run_variance_le le_rfl hM hvalues
  rwa [← sideStats_eq_run, sub_zero] at hvariance

/-- The largest covariance of powers up to `R` and `C`. -/
noncomputable def quietCovariance (R C : ℝ) : ℝ := 0.999 * (R * C) / 4

theorem Within.covariance_le {R C : ℝ} (hR : 0 ≤ R) (hC : 0 ≤ C) {h : List (Frame ℝ)}
    (hw : Within R C h) (d : ℕ) : (covariance d h).covariance ≤ quietCovariance R C := by
  have hrender := sideStats_variance_le hR fun p hp => (hw.drop d p hp).1
  have hcapture := sideStats_variance_le hC fun p hp => (hw p hp).2
  have hq : (0.999 : ℝ) = 999 / 1000 := by norm_num
  have hK : 0 ≤ quietCovariance R C := by
    unfold quietCovariance
    positivity
  have hsq : (covariance d h).covariance ^ 2 ≤ quietCovariance R C ^ 2 := by
    calc (covariance d h).covariance ^ 2
        ≤ (sideStats Frame.capture h).variance *
            (sideStats Frame.render (h.drop d)).variance := covariance_sq_le d h
      _ ≤ (999 / 1000 * C ^ 2 / 4) * (999 / 1000 * R ^ 2 / 4) :=
          mul_le_mul hcapture hrender (sideStats_variance_nonneg _ _) (by positivity)
      _ = quietCovariance R C ^ 2 := by
          unfold quietCovariance
          rw [hq]
          ring
  exact (le_abs_self _).trans (abs_le_of_sq_le_sq hsq hK)

/-- What the likelihood is bounded by, the reliability apart. -/
noncomputable def quietLikelihood (R C : ℝ) : ℝ :=
  quietCovariance R C / (quietCovariance R C + 0.0001)

theorem quietLikelihood_nonneg {R C : ℝ} (hR : 0 ≤ R) (hC : 0 ≤ C) : 0 ≤ quietLikelihood R C := by
  unfold quietLikelihood quietCovariance
  positivity

theorem Within.echoLikelihood_le {R C : ℝ} (hR : 0 ≤ R) (hC : 0 ≤ C) {h : List (Frame ℝ)}
    (hw : Within R C h) : echoLikelihood h ≤ reliability h * quietLikelihood R C := by
  have hreg : (0.0001 : ℝ) = 1 / 10000 := by norm_num
  have hloop : loopLikelihood h ≤ quietLikelihood R C := by
    apply runningMax_le (quietLikelihood_nonneg hR hC)
    intro d _
    have hK : 0 ≤ quietCovariance R C := by
      unfold quietCovariance
      positivity
    rw [quietLikelihood, hreg]
    exact correlation_le hK (hw.covariance_le hR hC d)
  have hrel : (1 - 0.999 ^ h.length : ℝ) = reliability h := by
    rw [reliability_eq]
    norm_num
  rw [echoLikelihood_eq, hrel]
  exact mul_le_mul_of_nonneg_left hloop (reliability_nonneg h)

/-- The bound holds for the recent maximum too, as the reliability only grows. -/
theorem Within.recentMax_le {R C : ℝ} (hR : 0 ≤ R) (hC : 0 ≤ C) {h : List (Frame ℝ)}
    (hw : Within R C h) : (recentMax h).max ≤ reliability h * quietLikelihood R C := by
  induction h with
  | nil => exact (zero_mul _).ge
  | cons p h ih =>
      have hold := ih fun q hq => hw q (List.mem_cons_of_mem p hq)
      have hnonneg : 0 ≤ (recentMax h).max := (echoLikelihood_nonneg h).trans (recentMax_bounds h).1
      rw [recentMax_cons]
      apply max_le
      · have hgrown : reliability h * quietLikelihood R C ≤
            reliability (p :: h) * quietLikelihood R C :=
          mul_le_mul_of_nonneg_right (reliability_le_cons p h) (quietLikelihood_nonneg hR hC)
        exact ((MovingMax.age_max_real hnonneg).2.trans hold).trans hgrown
      · exact hw.echoLikelihood_le hR hC

end History

namespace ResidualEchoDetector

section Frames

variable {F : Type u} [FloatMath F]

/-- The powers of a processed frame are those of frames that were passed. -/
theorem mem_history {calls : List (Call F)} {p : Frame F} (hp : p ∈ history calls) :
    (∃ x ∈ Call.renderFrames calls, power x = p.render) ∧
      ∃ y ∈ Call.captureFrames calls, power y = p.capture := by
  induction calls using List.reverseRecOn with
  | nil => exact absurd hp List.not_mem_nil
  | append_singleton calls c ih =>
      rw [Call.renderFrames_append, Call.captureFrames_append]
      rw [history_concat] at hp
      have hold : p ∈ history calls →
          (∃ x ∈ Call.renderFrames calls ++ Call.renderFrames [c], power x = p.render) ∧
            ∃ y ∈ Call.captureFrames calls ++ Call.captureFrames [c], power y = p.capture := by
        intro hmem
        rcases ih hmem with ⟨⟨x, hx, hrender⟩, y, hy, hcapture⟩
        exact ⟨⟨x, List.mem_append_left _ hx, hrender⟩, y, List.mem_append_left _ hy, hcapture⟩
      cases c with
      | analyzeRenderAudio x => exact hold hp
      | initializeDetector => exact absurd hp List.not_mem_nil
      | analyzeCaptureAudio y =>
          rw [record] at hp
          cases hnext : (run calls).nextRenderPower with
          | none =>
              rw [hnext] at hp
              exact hold hp
          | some r =>
              rw [hnext] at hp
              rcases List.mem_cons.mp hp with rfl | hmem
              · -- what a capture call gets waited, so it was rendered
                have hwaits : r ∈ (Pairing.run (N := kRenderBufferSize)
                    (calls.map Call.event)).backlog := by
                  rw [nextRenderPower_eq, pairing_run, Pairing.next] at hnext
                  split_ifs at hnext
                  exact List.mem_of_mem_head? hnext
                have hrendered := (Pairing.backlog_suffix (calls.map Call.event)).subset hwaits
                rw [Call.renders_event] at hrendered
                rcases List.mem_map.mp hrendered with ⟨x, hx, hpower⟩
                exact ⟨⟨x, List.mem_append_left _ hx, hpower⟩, y,
                  List.mem_append_right _ List.mem_cons_self, rfl⟩
              · exact hold hmem

end Frames

/-- **Quiet signals report no echo.** In a run with render samples of at most `A` and capture
samples of at most `B`, both metrics are at most `(1 - 0.999 ^ n) * (K / (K + 0.0001))` with
`K = 0.999 A² B² / 4`, after any number of calls and however alike the two sides are. -/
theorem quiet_metrics (calls : List (Call ℝ)) {A B : ℝ}
    (hrender : ∀ x ∈ Call.renderFrames calls, ∀ v ∈ x, |v| ≤ A)
    (hcapture : ∀ y ∈ Call.captureFrames calls, ∀ v ∈ y, |v| ≤ B) :
    let n := (history calls).length
    let K := 0.999 * (A ^ 2 * B ^ 2) / 4
    (run calls).getMetrics.echoLikelihood ≤ (1 - 0.999 ^ n) * (K / (K + 0.0001)) ∧
      (run calls).getMetrics.echoLikelihoodRecentMax ≤ (1 - 0.999 ^ n) * (K / (K + 0.0001)) := by
  intro n K
  have hw : History.Within (A ^ 2) (B ^ 2) (history calls) := by
    intro p hp
    rcases mem_history hp with ⟨⟨x, hx, hxp⟩, y, hy, hyp⟩
    rw [← hxp, ← hyp]
    exact ⟨⟨power_nonneg x, power_le (hrender x hx)⟩, power_nonneg y, power_le (hcapture y hy)⟩
  have hq : (0.999 : ℝ) = 999 / 1000 := by norm_num
  have hrel : (1 - 0.999 ^ n : ℝ) = History.reliability (history calls) := by
    rw [History.reliability_eq, hq]
  rw [getMetrics_run, hrel]
  exact ⟨hw.echoLikelihood_le (sq_nonneg A) (sq_nonneg B),
    hw.recentMax_le (sq_nonneg A) (sq_nonneg B)⟩

/-- At 40 dB below full scale the detector is all but blind. -/
theorem quiet_metrics_hundredth :
    let calls : List (Call ℝ) :=
      [.analyzeCaptureAudio [0.01], .analyzeRenderAudio [0.01], .analyzeCaptureAudio [0.01]]
    (run calls).getMetrics.echoLikelihoodRecentMax ≤
      (1 - 0.999 ^ (history calls).length) *
        (0.999 * (0.01 ^ 2 * 0.01 ^ 2) / 4 / (0.999 * (0.01 ^ 2 * 0.01 ^ 2) / 4 + 0.0001)) := by
  intro calls
  have hsample : |(0.01 : ℝ)| ≤ 0.01 := by
    rw [abs_of_nonneg (by norm_num)]
  have hrender : ∀ x ∈ Call.renderFrames calls, ∀ v ∈ x, |v| ≤ 0.01 := by
    simpa [calls, Call.renderFrames] using hsample
  have hcapture : ∀ y ∈ Call.captureFrames calls, ∀ v ∈ y, |v| ≤ 0.01 := by
    simpa [calls, Call.captureFrames] using hsample
  exact (quiet_metrics calls hrender hcapture).2

end ResidualEchoDetector

end AudioProc
