import AudioProc.Channels
import AudioProc.Merging
import AudioProc.QuietSignals
import AudioProc.Stabilise

/-!
# What happened before is forgotten

In exact arithmetic every estimator of the detector is a recursive filter, so that two
histories which go on with the same frames lead to signal states that merge: the means first,
then the variances and covariances that are taken around them, and with these the correlations
and the likelihood (`Grows.echoLikelihood`).

Two detectors that get the same calls need not process the same frames, as values may wait in
their buffers. Alternating calls drain the buffers, and then they do (`grows_rounds`). So from
whatever states two detectors start, the likelihoods that they report merge while they get the
same alternating calls (`likelihood_forgets`).

The recent maximum is left out for a reason: how far its counter has come is never forgotten.
-/

namespace AudioProc

open FloatOps Filter Topology

namespace History

/-- The history grows by the frames of `f`. -/
def Grows (f : ℕ → Frame ℝ) (h : ℕ → List (Frame ℝ)) : Prop := ∀ n, h (n + 1) = f n :: h n

/-- How far the newest value is from the mean that it is part of. -/
noncomputable def deviation (side : Frame ℝ → ℝ) (f : ℕ → Frame ℝ) (h : ℕ → List (Frame ℝ))
    (n : ℕ) : ℝ :=
  side (f n) - (sideStats side (h (n + 1))).mean

namespace Grows

variable {f : ℕ → Frame ℝ} {h h' : ℕ → List (Frame ℝ)}

theorem drop (hh : Grows f h) (n d : ℕ) : (h (n + d)).drop d = h n := by
  induction d with
  | zero => rfl
  | succ d ih => rw [← Nat.add_assoc, hh, List.drop_succ_cons, ih]

/-! ## One side -/

section Side

variable {side : Frame ℝ → ℝ}

theorem mean_succ (hh : Grows f h) (n : ℕ) : (sideStats side (h (n + 1))).mean =
    999 / 1000 * (sideStats side (h n)).mean + 1 / 1000 * side (f n) := by
  rw [hh, sideStats_mean_cons]

theorem variance_succ (hh : Grows f h) (n : ℕ) : (sideStats side (h (n + 1))).variance =
    999 / 1000 * (sideStats side (h n)).variance +
      1 / 1000 * (deviation side f h n * deviation side f h n) := by
  have hstep := sideStats_variance_cons side (f n) (h n)
  rw [← hh] at hstep
  rw [hstep, sq, deviation]

theorem mean_merge (hh : Grows f h) (hh' : Grows f h') :
    Merge (fun n => (sideStats side (h n)).mean) fun n => (sideStats side (h' n)).mean :=
  Merge.filter (by norm_num) (by norm_num) hh.mean_succ hh'.mean_succ (Merge.refl _)

theorem mean_bounded (hh : Grows f h) (hf : Bounded fun n => side (f n)) :
    Bounded fun n => (sideStats side (h n)).mean :=
  Bounded.filter (by norm_num) (by norm_num) hh.mean_succ (hf.const_mul _)

theorem deviation_merge (hh : Grows f h) (hh' : Grows f h') :
    Merge (deviation side f h) (deviation side f h') :=
  (Merge.refl _).sub ((hh.mean_merge hh').shift 1)

theorem deviation_bounded (hh : Grows f h) (hf : Bounded fun n => side (f n)) :
    Bounded (deviation side f h) :=
  hf.sub ((hh.mean_bounded hf).shift 1)

theorem variance_merge (hh : Grows f h) (hh' : Grows f h') (hf : Bounded fun n => side (f n)) :
    Merge (fun n => (sideStats side (h n)).variance) fun n => (sideStats side (h' n)).variance := by
  have hdev : Merge (deviation side f h) (deviation side f h') := hh.deviation_merge hh'
  have hsq := hdev.mul hdev (hh'.deviation_bounded hf) (hh.deviation_bounded hf)
  exact Merge.filter (by norm_num) (by norm_num) hh.variance_succ hh'.variance_succ
    (hsq.const_mul _)

theorem variance_bounded (hh : Grows f h) (hf : Bounded fun n => side (f n)) :
    Bounded fun n => (sideStats side (h n)).variance := by
  have hdev := hh.deviation_bounded hf
  exact Bounded.filter (by norm_num) (by norm_num) hh.variance_succ ((hdev.mul hdev).const_mul _)

theorem root_merge (hh : Grows f h) (hh' : Grows f h') (hf : Bounded fun n => side (f n)) :
    Merge (fun n => Real.sqrt (sideStats side (h n)).variance)
      fun n => Real.sqrt (sideStats side (h' n)).variance :=
  (hh.variance_merge hh' hf).sqrt (fun _ => sideStats_variance_nonneg _ _)
    fun _ => sideStats_variance_nonneg _ _

end Side

/-! ## One delay -/

variable (hh : Grows f h) (hh' : Grows f h')
include hh

/-- The render values of `d` frames ago, once there are so many. -/
theorem delayed_deviation (d n : ℕ) : renderPower ((h (n + d + 1)).drop d) -
    (sideStats Frame.render ((h (n + d + 1)).drop d)).mean = deviation Frame.render f h n := by
  rw [Nat.add_right_comm, hh.drop, deviation, hh]
  rfl

theorem covariance_succ (d n : ℕ) : (covariance d (h (n + 1))).covariance =
    999 / 1000 * (covariance d (h n)).covariance + 1 / 1000 * (deviation Frame.capture f h n *
      (renderPower ((h (n + 1)).drop d) - (sideStats Frame.render ((h (n + 1)).drop d)).mean)) := by
  have hstep := covariance_cons d (f n) (h n)
  rw [← hh] at hstep
  rw [hstep, deviation, mul_assoc]

/-- How far the render value of `d` frames ago was from its mean. -/
theorem delayed_bounded (hrender : Bounded fun n => (f n).render) (d : ℕ) :
    Bounded fun n => renderPower ((h (n + 1)).drop d) -
      (sideStats Frame.render ((h (n + 1)).drop d)).mean := by
  apply Bounded.of_shift d
  have hsame : (fun n => renderPower ((h (n + d + 1)).drop d) -
      (sideStats Frame.render ((h (n + d + 1)).drop d)).mean) = deviation Frame.render f h :=
    funext (hh.delayed_deviation d)
  show Bounded fun n => renderPower ((h (n + d + 1)).drop d) -
    (sideStats Frame.render ((h (n + d + 1)).drop d)).mean
  rw [hsame]
  exact hh.deviation_bounded hrender

theorem covariance_bounded (hrender : Bounded fun n => (f n).render)
    (hcapture : Bounded fun n => (f n).capture) (d : ℕ) :
    Bounded fun n => (covariance d (h n)).covariance := by
  have hproduct := (hh.deviation_bounded hcapture).mul (hh.delayed_bounded hrender d)
  exact Bounded.filter (by norm_num) (by norm_num) (hh.covariance_succ d) (hproduct.const_mul _)

include hh'

theorem delayed_merge (d : ℕ) : Merge
    (fun n => renderPower ((h (n + 1)).drop d) -
      (sideStats Frame.render ((h (n + 1)).drop d)).mean)
    fun n => renderPower ((h' (n + 1)).drop d) -
      (sideStats Frame.render ((h' (n + 1)).drop d)).mean := by
  apply Merge.of_shift d
  exact (hh.deviation_merge hh').congr (fun n => (hh.delayed_deviation d n).symm)
    fun n => (hh'.delayed_deviation d n).symm

theorem reliability_merge :
    Merge (fun n => reliability (h n)) fun n => reliability (h' n) := by
  have hsucc : ∀ {h : ℕ → List (Frame ℝ)}, Grows f h → ∀ n,
      reliability (h (n + 1)) = 999 / 1000 * reliability (h n) + 1 / 1000 := by
    intro h hh n
    rw [hh, reliability, ResidualEchoDetector.kAlpha_real]
    norm_num
  exact Merge.filter (by norm_num) (by norm_num) (hsucc hh) (hsucc hh') (Merge.refl _)

omit hh' in
theorem delayed_root_bounded (hrender : Bounded fun n => (f n).render) (d : ℕ) :
    Bounded fun n => renderStdDev ((h n).drop d) := by
  apply Bounded.of_shift d
  have hsame : (fun n => renderStdDev ((h (n + d)).drop d)) =
      fun n => Real.sqrt (sideStats Frame.render (h n)).variance := by
    funext n
    rw [renderStdDev_real, hh.drop]
  show Bounded fun n => renderStdDev ((h (n + d)).drop d)
  rw [hsame]
  exact (hh.variance_bounded hrender).sqrt

theorem delayed_root_merge (hrender : Bounded fun n => (f n).render) (d : ℕ) :
    Merge (fun n => renderStdDev ((h n).drop d)) fun n => renderStdDev ((h' n).drop d) := by
  apply Merge.of_shift d
  refine (hh.root_merge hh' hrender).congr ?_ ?_
  · intro n
    rw [renderStdDev_real, hh.drop]
  · intro n
    rw [renderStdDev_real, hh'.drop]

variable (hrender : Bounded fun n => (f n).render) (hcapture : Bounded fun n => (f n).capture)
include hrender hcapture

theorem covariance_merge (d : ℕ) : Merge (fun n => (covariance d (h n)).covariance)
    fun n => (covariance d (h' n)).covariance := by
  have hproduct := (hh.deviation_merge hh').mul (hh.delayed_merge hh' d)
    (hh'.deviation_bounded hcapture) (hh.delayed_bounded hrender d)
  exact Merge.filter (by norm_num) (by norm_num) (hh.covariance_succ d) (hh'.covariance_succ d)
    (hproduct.const_mul _)

/-- **The correlations merge** at every delay. -/
theorem correlation_merge (d : ℕ) : Merge (fun n => correlation (h n) d)
    fun n => correlation (h' n) d := by
  have hroots := (hh.root_merge hh' hcapture).mul (hh.delayed_root_merge hh' hrender d)
    (hh'.variance_bounded hcapture).sqrt (hh.delayed_root_bounded hrender d)
  -- the regulariser keeps both denominators away from 0
  have hlow : ∀ l : List (Frame ℝ), (1 / 10000 : ℝ) ≤
      Real.sqrt (sideStats Frame.capture l).variance * renderStdDev (l.drop d) + 1 / 10000 := by
    intro l
    rw [renderStdDev_real]
    exact le_add_of_nonneg_left (mul_nonneg (Real.sqrt_nonneg _) (Real.sqrt_nonneg _))
  have hinv := (hroots.add_const (1 / 10000)).inv (by norm_num) (fun n => hlow (h n))
    fun n => hlow (h' n)
  have hquotient := (hh.covariance_merge hh' hrender hcapture d).mul hinv
    (hh'.covariance_bounded hrender hcapture d) (bounded_inv (by norm_num) fun n => hlow (h n))
  refine hquotient.congr ?_ ?_
  · intro n
    rw [correlation_eq, captureStdDev_real]
    exact (div_eq_mul_inv _ _).symm
  · intro n
    rw [correlation_eq, captureStdDev_real]
    exact (div_eq_mul_inv _ _).symm

theorem loopLikelihood_merge :
    Merge (fun n => loopLikelihood (h n)) fun n => loopLikelihood (h' n) :=
  Merge.runningMax fun d _ => hh.correlation_merge hh' hrender hcapture d

/-- **The likelihoods merge.** -/
theorem echoLikelihood_merge :
    Merge (fun n => echoLikelihood (h n)) fun n => echoLikelihood (h' n) := by
  have hloop : Bounded fun n => loopLikelihood (h' n) := by
    refine ⟨1, fun n => ?_⟩
    rw [abs_of_nonneg (loopLikelihood_nonneg _)]
    exact (loopLikelihood_lt_one _).le
  have hrel : Bounded fun n => reliability (h n) := by
    refine ⟨1, fun n => ?_⟩
    rw [abs_of_nonneg (reliability_nonneg _)]
    exact (reliability_lt_one _).le
  have hproduct := (hh.loopLikelihood_merge hh' hrender hcapture).mul (hh.reliability_merge hh')
    hloop hrel
  apply Merge.of_shift 1
  refine (hproduct.shift 1).congr ?_ ?_
  · intro n
    rw [hh, echoLikelihood_cons]
  · intro n
    rw [hh', echoLikelihood_cons]

end Grows

end History

namespace ResidualEchoDetector

/-! ## Two detectors with the same calls -/

/-- The first `n` pairs of frames. -/
def rounds {F : Type*} (x y : ℕ → List F) (n : ℕ) : List (List F × List F) :=
  (List.range n).map fun k => (x k, y k)

/-- The history after `n` rounds, the first 900 of which may be needed to drain the buffer. -/
noncomputable def historyAfter (calls : List (Call ℝ)) (x y : ℕ → List ℝ) (n : ℕ) :
    List (Frame ℝ) :=
  history (calls ++ alternating (rounds x y (n + 900)))

variable {calls calls' : List (Call ℝ)} {x y : ℕ → List ℝ}

theorem alternating_rounds_succ (x y : ℕ → List ℝ) (n : ℕ) :
    alternating (rounds x y (n + 1)) = alternating (rounds x y n) ++
      [.analyzeRenderAudio (x n), .analyzeCaptureAudio (y n)] := by
  rw [rounds, List.range_succ, List.map_append, alternating, List.flatMap_append]
  rfl

/-- **Drained buffers pair what comes in together.** -/
theorem grows_rounds (calls : List (Call ℝ)) (x y : ℕ → List ℝ) :
    History.Grows (fun n => ⟨power (x (n + 900)), power (y (n + 900))⟩)
      (historyAfter calls x y) := by
  intro n
  have hN : 0 < kRenderBufferSize := by decide
  have hwf : (run calls).pairing.Wf := by
    rw [pairing_run]
    exact Pairing.wf_run hN _
  have hsettled : (run (calls ++ alternating (rounds x y (n + 900)))).pairing.Settled := by
    rw [run, Machine.run_append, pairing_run_alternating]
    apply Pairing.settled_of_pairs hN hwf
    rw [List.length_map, rounds, List.length_map, List.length_range]
    exact Nat.le_add_left 900 n
  -- nothing waits, so that the capture call gets the render value of its own pair
  have hsession := run_refines (calls ++ alternating (rounds x y (n + 900)))
  have hsettled' : (Session.run (calls ++ alternating (rounds x y (n + 900)))).pairing.Settled := by
    rw [hsession]
    exact hsettled
  rcases hsettled' with ⟨hfirst, hempty⟩
  rcases render_of_empty hempty (x (n + 900)) with ⟨hkept, hwaits, hhistory⟩
  rcases capture_of_next (hkept.trans hfirst) (y (n + 900)) with ⟨-, -, hframe⟩
  have hlast : historyAfter calls x y (n + 1) = history ((calls ++
      alternating (rounds x y (n + 900))) ++
        [.analyzeRenderAudio (x (n + 900)), .analyzeCaptureAudio (y (n + 900))]) := by
    rw [historyAfter, Nat.add_right_comm, alternating_rounds_succ, List.append_assoc]
  rw [hlast, history_eq, Session.run, Machine.run_append, ← Session.run, Machine.run_cons,
    Machine.run_cons, Machine.run_nil, hframe, hwaits, hhistory, ← history_eq]
  rfl

theorem power_bounded {x : ℕ → List ℝ} {A : ℝ} (hx : ∀ k, ∀ v ∈ x k, |v| ≤ A) :
    Bounded fun n => power (x (n + 900)) := by
  refine ⟨A ^ 2, fun n => ?_⟩
  rw [abs_of_nonneg (power_nonneg _)]
  exact power_le (hx (n + 900))

/-- **What happened before is forgotten.** Take two detectors with whatever runs behind them,
and give both of them the same alternating render and capture calls, with samples of at most
`A` in absolute value. As these go on, the correlations of all delays, the reliabilities and the
likelihoods that both report merge. -/
theorem likelihood_forgets (calls calls' : List (Call ℝ)) {x y : ℕ → List ℝ} {A : ℝ}
    (hx : ∀ k, ∀ v ∈ x k, |v| ≤ A) (hy : ∀ k, ∀ v ∈ y k, |v| ≤ A) :
    (∀ d : Fin kLookbackFrames, Tendsto (fun n =>
      ((run (calls ++ alternating (rounds x y n))).covariances.get d).normalizedCrossCorrelation -
        ((run (calls' ++ alternating (rounds x y n))).covariances.get d).normalizedCrossCorrelation)
      atTop (𝓝 0)) ∧
    Tendsto (fun n => (run (calls ++ alternating (rounds x y n))).reliability -
      (run (calls' ++ alternating (rounds x y n))).reliability) atTop (𝓝 0) ∧
    Tendsto (fun n => (run (calls ++ alternating (rounds x y n))).getMetrics.echoLikelihood -
      (run (calls' ++ alternating (rounds x y n))).getMetrics.echoLikelihood) atTop (𝓝 0) := by
  have hh := grows_rounds calls x y
  have hh' := grows_rounds calls' x y
  have hrender := power_bounded hx
  have hcapture := power_bounded hy
  have htracks : ∀ (calls : List (Call ℝ)) (n : ℕ),
      (run (calls ++ alternating (rounds x y (n + 900)))).Tracks (historyAfter calls x y n) := by
    intro calls n
    exact tracks_run _
  refine ⟨fun d => ?_, ?_, ?_⟩
  · apply Merge.of_shift 900
    refine (hh.correlation_merge hh' hrender hcapture d).congr ?_ ?_
    · intro n
      rw [(htracks calls n).get_covariances]
      rfl
    · intro n
      rw [(htracks calls' n).get_covariances]
      rfl
  · apply Merge.of_shift 900
    exact (hh.reliability_merge hh').congr (fun n => (htracks calls n).reliability.symm)
      fun n => (htracks calls' n).reliability.symm
  · apply Merge.of_shift 900
    refine (hh.echoLikelihood_merge hh' hrender hcapture).congr ?_ ?_
    · intro n
      rw [(htracks calls n).getMetrics]
      rfl
    · intro n
      rw [(htracks calls' n).getMetrics]
      rfl

/-- A detector that has processed a frame and has another one waiting, and a fresh detector. -/
theorem likelihood_forgets_frame :
    let past : List (Call ℝ) := [.analyzeCaptureAudio [1], .analyzeRenderAudio [3],
      .analyzeCaptureAudio [2], .analyzeRenderAudio [5]]
    Tendsto (fun n => (run (past ++
        alternating (rounds (fun _ => [1]) (fun _ => [1]) n))).getMetrics.echoLikelihood -
      (run ([] ++ alternating (rounds (fun _ => [1]) (fun _ => [1]) n))).getMetrics.echoLikelihood)
      atTop (𝓝 (0 : ℝ)) := by
  intro past
  have hone : ∀ _k : ℕ, ∀ v ∈ [(1 : ℝ)], |v| ≤ 1 := by
    intro _ v hv
    rw [List.mem_singleton.mp hv, abs_one]
  exact (likelihood_forgets past [] hone hone).2.2

end ResidualEchoDetector

end AudioProc
