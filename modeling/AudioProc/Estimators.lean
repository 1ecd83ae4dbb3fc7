import AudioProc.FloatOps
import Mathlib.Tactic.NormNum

/-!
# The estimators of the echo detector

`MeanVarianceEstimator`, `NormalizedCovarianceEstimator` and `MovingMax` of
`echo_detector/`, over any `FloatOps`, each followed by what its `update` computes in
exact real arithmetic.
-/

namespace AudioProc

universe u

/-! ## MeanVarianceEstimator -/

/-- This class iteratively estimates the mean and variance of a signal. -/
structure MeanVarianceEstimator (F : Type u) where
  mean : F
  variance : F

namespace MeanVarianceEstimator

variable {F : Type u}

/-- The adaptation speed of the exponential moving averages. -/
def kAlpha [FloatOps F] : F := 0.001

/-- A new estimator; `Clear` returns to the same values. -/
def new [FloatOps F] : MeanVarianceEstimator F where
  mean := 0
  variance := 0

/-- `MeanVarianceEstimator::Update`: the variance already uses the new mean. -/
def update [FloatOps F] (e : MeanVarianceEstimator F) (value : F) :
    MeanVarianceEstimator F :=
  let mean := (1 - kAlpha) * e.mean + kAlpha * value
  { mean := mean
    variance := (1 - kAlpha) * e.variance + kAlpha * (value - mean) * (value - mean) }

/-- `MeanVarianceEstimator::std_deviation` -/
def stdDeviation [FloatMath F] (e : MeanVarianceEstimator F) : F :=
  FloatMath.sqrtf e.variance

/-- `MeanVarianceEstimator::Clear` -/
def clear [FloatOps F] (_ : MeanVarianceEstimator F) : MeanVarianceEstimator F where
  mean := 0
  variance := 0

@[simp] theorem new_mean_real : (new : MeanVarianceEstimator ℝ).mean = 0 := rfl

@[simp] theorem new_variance_real : (new : MeanVarianceEstimator ℝ).variance = 0 := rfl

theorem kAlpha_real : (kAlpha : ℝ) = 1 / 1000 := by
  show (0.001 : ℝ) = 1 / 1000
  norm_num

theorem update_mean_real (e : MeanVarianceEstimator ℝ) (v : ℝ) :
    (e.update v).mean = 999 / 1000 * e.mean + 1 / 1000 * v := by
  show (1 - (kAlpha : ℝ)) * e.mean + (kAlpha : ℝ) * v = _
  rw [kAlpha_real]
  norm_num

theorem update_variance_real (e : MeanVarianceEstimator ℝ) (v : ℝ) :
    (e.update v).variance = 999 / 1000 * e.variance +
      1 / 1000 * (v - (e.update v).mean) ^ 2 := by
  show (1 - (kAlpha : ℝ)) * e.variance +
    (kAlpha : ℝ) * (v - (e.update v).mean) * (v - (e.update v).mean) = _
  rw [kAlpha_real]
  ring

theorem update_variance_nonneg {e : MeanVarianceEstimator ℝ} (h : 0 ≤ e.variance) (v : ℝ) :
    0 ≤ (e.update v).variance := by
  rw [update_variance_real]
  positivity

theorem stdDeviation_real (e : MeanVarianceEstimator ℝ) :
    e.stdDeviation = Real.sqrt e.variance := rfl

end MeanVarianceEstimator

/-! ## NormalizedCovarianceEstimator -/

/-- The covariance of two signals and an estimation of their Pearson product-moment
correlation coefficient. -/
structure NormalizedCovarianceEstimator (F : Type u) where
  normalizedCrossCorrelation : F
  covariance : F

namespace NormalizedCovarianceEstimator

variable {F : Type u} [FloatOps F]

def kAlpha : F := 0.001

/-- The regulariser in the denominator of the correlation. -/
def kRegularizer : F := 0.0001

/-- A new estimator; `Clear` returns to the same values. -/
def new : NormalizedCovarianceEstimator F where
  normalizedCrossCorrelation := 0
  covariance := 0

/-- `NormalizedCovarianceEstimator::Update` -/
def update (e : NormalizedCovarianceEstimator F) (x xMean xSigma y yMean ySigma : F) :
    NormalizedCovarianceEstimator F :=
  let covariance := (1 - kAlpha) * e.covariance + kAlpha * (x - xMean) * (y - yMean)
  { normalizedCrossCorrelation := covariance / (xSigma * ySigma + kRegularizer)
    covariance := covariance }

/-- `NormalizedCovarianceEstimator::Clear` -/
def clear (_ : NormalizedCovarianceEstimator F) : NormalizedCovarianceEstimator F where
  normalizedCrossCorrelation := 0
  covariance := 0

omit [FloatOps F] in
@[simp] theorem new_covariance_real :
    (new : NormalizedCovarianceEstimator ℝ).covariance = 0 := rfl

theorem kAlpha_real : (kAlpha : ℝ) = 1 / 1000 := by
  show (0.001 : ℝ) = 1 / 1000
  norm_num

theorem kRegularizer_real : (kRegularizer : ℝ) = 1 / 10000 := by
  show (0.0001 : ℝ) = 1 / 10000
  norm_num

theorem update_covariance_real (e : NormalizedCovarianceEstimator ℝ)
    (x xMean xSigma y yMean ySigma : ℝ) :
    (e.update x xMean xSigma y yMean ySigma).covariance =
      999 / 1000 * e.covariance + 1 / 1000 * (x - xMean) * (y - yMean) := by
  show (1 - (kAlpha : ℝ)) * e.covariance + (kAlpha : ℝ) * (x - xMean) * (y - yMean) = _
  rw [kAlpha_real]
  norm_num

theorem update_normalizedCrossCorrelation_real (e : NormalizedCovarianceEstimator ℝ)
    (x xMean xSigma y yMean ySigma : ℝ) :
    (e.update x xMean xSigma y yMean ySigma).normalizedCrossCorrelation =
      (e.update x xMean xSigma y yMean ySigma).covariance /
        (xSigma * ySigma + 1 / 10000) := by
  show _ / (xSigma * ySigma + (kRegularizer : ℝ)) = _
  rw [kRegularizer_real]
  rfl

end NormalizedCovarianceEstimator

/-! ## MovingMax -/

/-- The maximum of the last `windowSize` values, decaying once it is older than that. The
window is not empty, so `windowSize - 1` does not underflow. -/
structure MovingMax (F : Type u) where
  maxValue : F
  counter : ℕ
  windowSize : ℕ
  window_pos : 0 < windowSize

namespace MovingMax

variable {F : Type u} [FloatOps F]

def kDecayFactor : F := 0.99

/-- `MovingMax::MovingMax` -/
def new (windowSize : ℕ) (h : 0 < windowSize) : MovingMax F where
  maxValue := 0
  counter := 0
  windowSize := windowSize
  window_pos := h

/-- The first half of `Update`: hold the maximum while it is young, then let it decay. -/
def age (m : MovingMax F) : MovingMax F :=
  if m.counter ≥ m.windowSize - 1 then
    { m with maxValue := m.maxValue * kDecayFactor }
  else
    { m with counter := m.counter + 1 }

/-- `MovingMax::Update` -/
def update (m : MovingMax F) (value : F) : MovingMax F :=
  let m := m.age
  if m.maxValue < value then { m with maxValue := value, counter := 0 } else m

/-- `MovingMax::max` -/
def max (m : MovingMax F) : F := m.maxValue

/-- `MovingMax::Clear` -/
def clear (m : MovingMax F) : MovingMax F :=
  { m with maxValue := 0, counter := 0 }

@[simp] theorem update_windowSize (m : MovingMax F) (value : F) :
    (m.update value).windowSize = m.windowSize := by
  simp only [update, age]
  split_ifs <;> rfl

omit [FloatOps F] in
theorem kDecayFactor_real : (kDecayFactor : ℝ) = 99 / 100 := by
  show (0.99 : ℝ) = 99 / 100
  norm_num

omit [FloatOps F] in
/-- Ageing keeps a nonnegative maximum nonnegative and never raises it. -/
theorem age_max_real {m : MovingMax ℝ} (h : 0 ≤ m.max) :
    0 ≤ m.age.max ∧ m.age.max ≤ m.max := by
  unfold age
  split_ifs with hold
  · -- older than the window: it decays
    show 0 ≤ m.max * (kDecayFactor : ℝ) ∧ m.max * (kDecayFactor : ℝ) ≤ m.max
    rw [kDecayFactor_real]
    constructor
    · positivity
    · linarith
  · exact ⟨h, le_rfl⟩

omit [FloatOps F] in
theorem update_max_real (m : MovingMax ℝ) (v : ℝ) :
    (m.update v).max = Max.max m.age.max v := by
  show (if m.age.max < v then { m.age with maxValue := v, counter := 0 } else m.age :
    MovingMax ℝ).max = _
  split_ifs with h
  · exact (max_eq_right h.le).symm
  · exact (max_eq_left (not_lt.mp h)).symm

end MovingMax

end AudioProc
