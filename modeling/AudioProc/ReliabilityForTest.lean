import AudioProc.ExactLikelihood

/-!
# SetReliabilityForTest

The unit tests of the detector set its reliability to 1 before they start. The reliability
then stays what it is, and the detector reports the largest correlation itself, which a
detector without the setting reports weighed with its own reliability `1 - 0.999 ^ n`.

The reliability goes into the reported likelihood, its recent maximum, the histogram and what
is printed: the `Weights` of a detector. Nothing else depends on them.

* `step_withWeights`: one call on two detectors with different weights;
* `forTest_run`, `likelihood_for_test`: the runs of a detector under test.
-/

namespace AudioProc

open FloatOps

universe u

/-- What the reliability goes into. -/
structure Weights (F : Type u) where
  reliability : F
  echoLikelihood : F
  recentLikelihoodMax : MovingMax F
  echoLikelihoodHistogram : RtcHistogram
  printed : List (InternalState F)

namespace ResidualEchoDetector

section

variable {F : Type u}

/-- The detector with other weights. -/
def withWeights (d : ResidualEchoDetector F) (w : Weights F) : ResidualEchoDetector F :=
  { d with
    reliability := w.reliability
    echoLikelihood := w.echoLikelihood
    recentLikelihoodMax := w.recentLikelihoodMax
    echoLikelihoodHistogram := w.echoLikelihoodHistogram
    printed := w.printed }

theorem setReliabilityForTest_eq (d : ResidualEchoDetector F) (value : F) :
    d.setReliabilityForTest value = d.withWeights
      { reliability := value
        echoLikelihood := d.echoLikelihood
        recentLikelihoodMax := d.recentLikelihoodMax
        echoLikelihoodHistogram := d.echoLikelihoodHistogram
        printed := d.printed } := rfl

variable [FloatMath F]

/-! ## Calls -/

theorem analyzeRenderAudio_withWeights (d : ResidualEchoDetector F) (w : Weights F) (x : List F) :
    (d.withWeights w).analyzeRenderAudio x = (d.analyzeRenderAudio x).withWeights w := by
  have hcorrect : (d.withWeights w).correctDrift = d.correctDrift.withWeights w := by
    by_cases hempty : d.renderBuffer.length = 0
    · rw [correctDrift, correctDrift, if_pos hempty]
      exact if_pos hempty
    · by_cases hdrift : d.framesSinceZeroBufferSize ≥ kRenderBufferSize
      · rw [correctDrift, correctDrift, if_neg hempty, if_pos hdrift]
        exact (if_neg hempty).trans (if_pos hdrift)
      · rw [correctDrift, correctDrift, if_neg hempty, if_neg hdrift]
        exact (if_neg hempty).trans (if_neg hdrift)
  rw [analyzeRenderAudio, hcorrect]
  rfl

theorem popRender_withWeights (d : ResidualEchoDetector F) (w : Weights F) :
    (d.withWeights w).popRender.2 = d.popRender.2.withWeights w := by
  have hflush : (d.withWeights w).flush = d.flush.withWeights w := by
    by_cases hfirst : d.firstProcessCall = true
    · rw [flush, flush, if_pos hfirst]
      exact if_pos hfirst
    · rw [flush, flush, if_neg hfirst]
      exact if_neg hfirst
  rw [popRender, hflush]
  rfl

theorem nextRenderPower_withWeights (d : ResidualEchoDetector F) (w : Weights F) :
    (d.withWeights w).nextRenderPower = d.nextRenderPower := by
  rw [nextRenderPower_eq, nextRenderPower_eq]
  rfl

/-- The delay loop does not look at them. -/
theorem delayLoop_withWeights (d : ResidualEchoDetector F) (w : Weights F) (capturePower : F)
    (n : ℕ) (hn : n ≤ kLookbackFrames) :
    (d.withWeights w).delayLoop capturePower n hn = d.delayLoop capturePower n hn := by
  induction n with
  | zero => rfl
  | succ n ih =>
      rw [delayLoop, delayLoop, ih]
      rfl

theorem loopResult_withWeights (d : ResidualEchoDetector F) (w : Weights F) (r c : F) :
    (d.withWeights w).loopResult r c = d.loopResult r c :=
  delayLoop_withWeights ((d.storeRender r).storeCapture c) w c kLookbackFrames le_rfl

/-- **One processed frame**: only the weights can differ afterwards. -/
theorem processFrame_withWeights (d : ResidualEchoDetector F) (w : Weights F) (r c : F) :
    ∃ w', (d.withWeights w).processFrame r c = (d.processFrame r c).withWeights w' := by
  obtain ⟨l, hl⟩ : ∃ l, l = d.loopResult r c := ⟨_, rfl⟩
  unfold processFrame
  rw [loopResult_withWeights, ← hl]
  -- the diagnostic branch is taken by both: the likelihood it looks at is that of the loop
  simp only [logState]
  split_ifs with hlog hlog' hlog'
  · exact ⟨⟨_, _, _, _, _⟩, rfl⟩
  · exact absurd hlog hlog'
  · exact absurd hlog' hlog
  · exact ⟨⟨_, _, _, _, _⟩, rfl⟩

/-- **One call**: only the weights can differ afterwards. -/
theorem step_withWeights (d : ResidualEchoDetector F) (w : Weights F) (c : Call F) :
    ∃ w', (d.withWeights w).step c = (d.step c).withWeights w' := by
  cases c with
  | analyzeRenderAudio x => exact ⟨w, analyzeRenderAudio_withWeights d w x⟩
  | analyzeCaptureAudio y =>
      simp only [step, analyzeCaptureAudio_eq, nextRenderPower_withWeights,
        popRender_withWeights]
      cases d.nextRenderPower with
      | none => exact ⟨w, rfl⟩
      | some r => exact processFrame_withWeights _ w r (power y)
  | initializeDetector => exact ⟨⟨_, _, _, _, _⟩, rfl⟩

theorem processFrame_reliability (d : ResidualEchoDetector F) (r c : F) :
    (d.processFrame r c).reliability = (1 - kAlpha) * d.reliability + kAlpha * 1 := by
  simp only [processFrame, logState]
  split_ifs <;> rfl

theorem processFrame_echoLikelihood (d : ResidualEchoDetector F) (r c : F) :
    (d.processFrame r c).echoLikelihood =
      stdMin ((d.loopResult r c).echoLikelihood * (d.processFrame r c).reliability) 1 := by
  simp only [processFrame, logState]
  split_ifs <;> rfl

end

/-! ## A detector under test -/

/-- The setting after one more call: `Initialize` undoes it. -/
def settingAfter (value : ℝ) : Call ℝ → ℝ
  | .analyzeRenderAudio _ => value
  | .analyzeCaptureAudio _ => value
  | .initializeDetector => 0

/-- Detector `t` goes through the same calls as `d`, whose history is `h`, from a reliability
that was set to `value` before the first frame of it. -/
structure ForTest (t d : ResidualEchoDetector ℝ) (h : List (Frame ℝ)) (value : ℝ) : Prop where
  value_nonneg : 0 ≤ value
  value_le_one : value ≤ 1
  weights : ∃ w, t = d.withWeights w
  reliability : t.reliability = 1 - (1 - value) * (999 / 1000) ^ h.length
  echoLikelihood : t.echoLikelihood = History.loopLikelihood h * t.reliability

section

variable {t d : ResidualEchoDetector ℝ} {h : List (Frame ℝ)} {value : ℝ}

/-- The setting moves towards 1 as the reliability of every detector does. -/
theorem ForTest.processFrame (hf : ForTest t d h value) (ht : d.Tracks h) (r c : ℝ) :
    ForTest (t.processFrame r c) (d.processFrame r c) (⟨r, c⟩ :: h) value := by
  have hgap : 0 ≤ (1 - value) * (999 / 1000 : ℝ) ^ (h.length + 1) :=
    mul_nonneg (sub_nonneg.mpr hf.value_le_one) (by positivity)
  have hgap' : (1 - value) * (999 / 1000 : ℝ) ^ (h.length + 1) ≤ 1 := by
    have hpow : (999 / 1000 : ℝ) ^ (h.length + 1) ≤ 1 := pow_le_one₀ (by norm_num) (by norm_num)
    exact mul_le_one₀ (by linarith [hf.value_nonneg]) (by positivity) hpow
  have hrel : (t.processFrame r c).reliability =
      1 - (1 - value) * (999 / 1000) ^ (h.length + 1) := by
    rw [processFrame_reliability, hf.reliability, kAlpha_real, pow_succ]
    ring
  have hloop : (t.loopResult r c).echoLikelihood = History.loopLikelihood (⟨r, c⟩ :: h) := by
    rcases hf.weights with ⟨w, rfl⟩
    rw [loopResult_withWeights, ht.loopResult]
  refine ⟨hf.value_nonneg, hf.value_le_one, ?_, hrel, ?_⟩
  · rcases hf.weights with ⟨w, rfl⟩
    exact processFrame_withWeights d w r c
  · -- the cap at 1 does not cut a likelihood below 1
    rw [processFrame_echoLikelihood, hloop, stdMin_real]
    apply min_eq_left
    apply mul_le_one₀ (History.loopLikelihood_lt_one _).le
    · rw [hrel]
      linarith
    · rw [hrel]
      linarith

theorem ForTest.analyzeRenderAudio (hf : ForTest t d h value) (x : List ℝ) :
    ForTest (t.analyzeRenderAudio x) (d.analyzeRenderAudio x) h value := by
  refine ⟨hf.value_nonneg, hf.value_le_one, ?_, ?_, ?_⟩
  · rcases hf.weights with ⟨w, rfl⟩
    exact ⟨w, analyzeRenderAudio_withWeights d w x⟩
  all_goals
    rcases t.analyzeRenderAudio_buffering x with ⟨b, n, ht⟩
    rw [ht]
  · exact hf.reliability
  · exact hf.echoLikelihood

theorem ForTest.popRender (hf : ForTest t d h value) :
    ForTest t.popRender.2 d.popRender.2 h value := by
  refine ⟨hf.value_nonneg, hf.value_le_one, ?_, ?_, ?_⟩
  · rcases hf.weights with ⟨w, rfl⟩
    exact ⟨w, popRender_withWeights d w⟩
  all_goals
    rcases t.popRender_buffering with ⟨b, ht⟩
    rw [ht]
  · exact hf.reliability
  · exact hf.echoLikelihood

/-- After an `Initialize` nothing is left of the setting. -/
theorem ForTest.initializeDetector (hf : ForTest t d h value) :
    ForTest t.initializeDetector d.initializeDetector [] 0 := by
  refine ⟨le_rfl, zero_le_one, ?_, ?_, (mul_zero _).symm⟩
  · rcases hf.weights with ⟨w, rfl⟩
    exact step_withWeights d w .initializeDetector
  · show (0 : ℝ) = 1 - (1 - 0) * (999 / 1000) ^ 0
    norm_num

/-- **One call** on both detectors. -/
theorem ForTest.step (hf : ForTest t d h value) (ht : d.Tracks h) (c : Call ℝ) :
    ForTest (t.step c) (d.step c) (d.record h c) (settingAfter value c) := by
  cases c with
  | analyzeRenderAudio x => exact hf.analyzeRenderAudio x
  | analyzeCaptureAudio y =>
      have hnext : t.nextRenderPower = d.nextRenderPower := by
        rcases hf.weights with ⟨w, rfl⟩
        exact nextRenderPower_withWeights d w
      simp only [ResidualEchoDetector.step, record, analyzeCaptureAudio_eq, hnext, settingAfter]
      cases d.nextRenderPower with
      | none => exact hf.popRender
      | some r => exact hf.popRender.processFrame ht.popRender r (power y)
  | initializeDetector => exact hf.initializeDetector

end

theorem loopLikelihood_nil : History.loopLikelihood ([] : List (Frame ℝ)) = 0 := by
  apply le_antisymm
  · apply runningMax_le le_rfl
    intro j _
    exact le_rfl
  · exact History.loopLikelihood_nonneg []

/-- **A detector under test**: the reliability set to a value from 0 to 1 moves towards 1 from
there, an `Initialize` puts it back to 0, and the likelihood reported is the largest
correlation, which the setting does not touch, weighed with it. -/
theorem forTest_run {value : ℝ} (h₀ : 0 ≤ value) (h₁ : value ≤ 1) (calls : List (Call ℝ)) :
    ForTest (Machine.run ResidualEchoDetector.step (setReliabilityForTest new value) calls)
      (run calls) (history calls) (calls.foldl settingAfter value) := by
  induction calls using List.reverseRecOn with
  | nil =>
      refine ⟨h₀, h₁, ⟨_, setReliabilityForTest_eq new value⟩, ?_, ?_⟩
      · show value = 1 - (1 - value) * (999 / 1000) ^ 0
        ring
      · rw [history]
        show (0 : ℝ) = History.loopLikelihood [] * value
        rw [loopLikelihood_nil, zero_mul]
  | append_singleton calls c ih =>
      rw [Machine.run_concat, run_concat, history_concat, List.foldl_concat]
      exact ih.step (tracks_run calls) c

/-- With the reliability that the unit tests set, a detector reports the largest correlation
itself; without the setting it reports `1 - 0.999 ^ n` of that. -/
theorem likelihood_for_test {calls : List (Call ℝ)} (hkeep : Call.initializeDetector ∉ calls) :
    let t := Machine.run ResidualEchoDetector.step (setReliabilityForTest new 1) calls
    t.reliability = 1 ∧ t.getMetrics.echoLikelihood = History.loopLikelihood (history calls) ∧
      (run calls).getMetrics.echoLikelihood =
        (1 - 0.999 ^ (history calls).length) * t.getMetrics.echoLikelihood := by
  have hset : calls.foldl settingAfter 1 = 1 := by
    induction calls with
    | nil => rfl
    | cons c calls ih =>
        rw [List.mem_cons, not_or] at hkeep
        cases c with
        | analyzeRenderAudio x => exact ih hkeep.2
        | analyzeCaptureAudio y => exact ih hkeep.2
        | initializeDetector => exact absurd rfl hkeep.1
  have hf := forTest_run zero_le_one le_rfl calls
  rw [hset] at hf
  intro t
  have hrel : t.reliability = 1 := by
    rw [hf.reliability]
    ring
  have hecho : t.getMetrics.echoLikelihood = History.loopLikelihood (history calls) := by
    show t.echoLikelihood = _
    rw [hf.echoLikelihood, hrel, mul_one]
  refine ⟨hrel, hecho, ?_⟩
  rw [hecho, getMetrics_run]
  exact History.echoLikelihood_eq (history calls)

end ResidualEchoDetector

end AudioProc
