import AudioProc.ResidualEchoDetector
import AudioProc.RunningMax

/-!
# What the detector computes from its history

The signal side of the detector as functions of the frames it processed. A frame is the
render power popped by a capture call together with the power of that call's frame; a
history is the list of frames processed since construction or the last `Initialize`,
**newest first**. Every estimator is a fold over that list, and the statistics of `d`
frames ago are those of `h.drop d`.

This is the specification: nothing here is circular, overwritten or counted. `Refinement`
shows that the state of the detector is this function of its history.
-/

namespace AudioProc

universe u

/-- A processed frame: a popped render power and a capture power. -/
structure Frame (F : Type u) where
  render : F
  capture : F

namespace History

variable {F : Type u} [FloatMath F]

/-- The render statistics after the frames of a history. -/
def renderStats : List (Frame F) → MeanVarianceEstimator F
  | [] => .new
  | p :: h => (renderStats h).update p.render

/-- The capture statistics after the frames of a history. -/
def captureStats : List (Frame F) → MeanVarianceEstimator F
  | [] => .new
  | p :: h => (captureStats h).update p.capture

/-- The statistics of one side of the frames, whichever it is. -/
def sideStats (side : Frame F → F) : List (Frame F) → MeanVarianceEstimator F
  | [] => .new
  | p :: h => (sideStats side h).update (side p)

theorem renderStats_eq (h : List (Frame F)) : renderStats h = sideStats Frame.render h := by
  induction h with
  | nil => rfl
  | cons p h ih => rw [renderStats, sideStats, ih]

theorem captureStats_eq (h : List (Frame F)) :
    captureStats h = sideStats Frame.capture h := by
  induction h with
  | nil => rfl
  | cons p h ih => rw [captureStats, sideStats, ih]

/-- The newest render power, 0 before the first frame. -/
def renderPower : List (Frame F) → F
  | [] => 0
  | p :: _ => p.render

/-- The newest render mean, 0 before the first frame. -/
def renderMean : List (Frame F) → F
  | [] => 0
  | p :: h => (renderStats (p :: h)).mean

/-- The newest render deviation, 0 before the first frame. -/
def renderStdDev : List (Frame F) → F
  | [] => 0
  | p :: h => (renderStats (p :: h)).stdDeviation

/-- The covariance estimator of delay `d`: fed, at each frame, with the capture values of
that frame and the render values of `d` frames earlier. -/
def covariance (d : ℕ) : List (Frame F) → NormalizedCovarianceEstimator F
  | [] => .new
  | p :: h => (covariance d h).update p.capture (captureStats (p :: h)).mean
      (captureStats (p :: h)).stdDeviation (renderPower ((p :: h).drop d))
      (renderMean ((p :: h).drop d)) (renderStdDev ((p :: h).drop d))

/-- The correlation at delay `d`. -/
def correlation (h : List (Frame F)) (d : ℕ) : F :=
  (covariance d h).normalizedCrossCorrelation

/-- What the delay loop leaves in `echo_likelihood_`. -/
def loopLikelihood (h : List (Frame F)) : F :=
  runningMax 0 (correlation h) kLookbackFrames

/-- The reliability: it grows with every frame. -/
def reliability : List (Frame F) → F
  | [] => 0
  | _ :: h => (1 - ResidualEchoDetector.kAlpha) * reliability h + ResidualEchoDetector.kAlpha * 1

/-- The echo likelihood reported after a history. -/
def echoLikelihood : List (Frame F) → F
  | [] => 0
  | p :: h => FloatOps.stdMin (loopLikelihood (p :: h) * reliability (p :: h)) 1

/-- The recent maximum of the reported likelihoods. -/
def recentMax : List (Frame F) → MovingMax F
  | [] => .new kAggregationBufferSize kAggregationBufferSize_pos
  | p :: h => (recentMax h).update (echoLikelihood (p :: h))

/-- The metrics reported after a history. -/
def metrics (h : List (Frame F)) : Metrics F where
  echoLikelihood := echoLikelihood h
  echoLikelihoodRecentMax := (recentMax h).max

theorem recentMax_windowSize (h : List (Frame F)) :
    (recentMax h).windowSize = kAggregationBufferSize := by
  induction h with
  | nil => rfl
  | cons p h ih => rw [recentMax, MovingMax.update_windowSize, ih]

/-- Clearing the recent maximum forgets the history. -/
theorem recentMax_clear (h : List (Frame F)) : (recentMax h).clear = recentMax [] := by
  have hwindow := recentMax_windowSize h
  cases hm : recentMax h with
  | mk maxValue counter windowSize window_pos =>
      rw [hm] at hwindow
      have hw : windowSize = kAggregationBufferSize := hwindow
      subst hw
      rfl

end History

end AudioProc
