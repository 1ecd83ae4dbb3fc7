import AudioProc.CircularBuffer
import AudioProc.Estimators
import AudioProc.Machine
import AudioProc.RtcHistogram

/-!
# ResidualEchoDetector

The detector of `residual_echo_detector.cc`, over any `FloatMath`.

A render call pushes the power of its frame into `renderBuffer`; a capture call pops one
render power, and the pair of a render and a capture power is what the detector
processes. Processing updates the render and the capture statistics, writes the render
statistics into the three lookback arrays and runs the delay loop over the 650
covariance estimators.

`AnalyzeCaptureAudio` is cut into the steps its body goes through: `flush`, `storeRender`,
`storeCapture`, the delay loop, `logState`, `settle`. The dump of debug signals to
`data_dumper_` has no influence on any of the state; it is modelled in `DebugSignals`.
-/

namespace AudioProc

open FloatOps

universe u

variable {F : Type u}

/-- The mean power of a frame. -/
def power [FloatOps F] (input : List F) : F :=
  if input.isEmpty then 0
  else input.foldl (fun acc x => acc + x * x) 0 / ofNat input.length

def kLookbackFrames : ℕ := 650

def kRenderBufferSize : ℕ := 30

/-- 10 seconds of data, updated every 10 ms. -/
def kAggregationBufferSize : ℕ := 10 * 100

theorem kLookbackFrames_pos : 0 < kLookbackFrames := by decide

theorem kAggregationBufferSize_pos : 0 < kAggregationBufferSize := by decide

/-- The slot before `i` in the lookback arrays. -/
def previousIndex (i : Fin kLookbackFrames) : Fin kLookbackFrames :=
  ⟨if i.val > 0 then i.val - 1 else kLookbackFrames - 1, Lookback.prev_lt i.isLt⟩

/-- The slot after `i` in the lookback arrays. -/
def followingIndex (i : Fin kLookbackFrames) : Fin kLookbackFrames :=
  ⟨if i.val < kLookbackFrames - 1 then i.val + 1 else 0, Lookback.next_lt kLookbackFrames_pos⟩

/-- `EchoDetector::Metrics` -/
structure Metrics (F : Type u) where
  echoLikelihood : F
  echoLikelihoodRecentMax : F

/-- What the diagnostic branch prints about the internal state. -/
structure InternalState (F : Type u) where
  echoLikelihood : F
  bestDelay : ℤ
  covariance : F
  lastCapturePower : F
  captureMean : F
  captureStdDeviation : F
  lastRenderPower : F
  renderMean : F
  renderStdDeviation : F
  reliability : F

/-- The state of `ResidualEchoDetector`. `printed` is what went to `std::cout`, newest
last. -/
structure ResidualEchoDetector (F : Type u) where
  firstProcessCall : Bool
  renderBuffer : CircularBuffer F kRenderBufferSize
  framesSinceZeroBufferSize : ℕ
  renderPower : Vector F kLookbackFrames
  renderPowerMean : Vector F kLookbackFrames
  renderPowerStdDev : Vector F kLookbackFrames
  covariances : Vector (NormalizedCovarianceEstimator F) kLookbackFrames
  nextInsertionIndex : Fin kLookbackFrames
  renderStatistics : MeanVarianceEstimator F
  captureStatistics : MeanVarianceEstimator F
  echoLikelihood : F
  reliability : F
  echoLikelihoodHistogram : RtcHistogram
  recentLikelihoodMax : MovingMax F
  logCounter : ℕ
  printed : List (InternalState F)

/-- The variables of the delay loop. -/
structure DelayLoop (F : Type u) where
  covariances : Vector (NormalizedCovarianceEstimator F) kLookbackFrames
  readIndex : Fin kLookbackFrames
  echoLikelihood : F
  bestDelay : ℤ

/-- The calls of the `EchoDetector` interface that change the state. -/
inductive Call (F : Type u) where
  | analyzeRenderAudio (renderAudio : List F)
  | analyzeCaptureAudio (captureAudio : List F)
  | initializeDetector

namespace ResidualEchoDetector

variable [FloatMath F]

def kAlpha : F := 0.001

/-- `ResidualEchoDetector::ResidualEchoDetector` -/
def new : ResidualEchoDetector F where
  firstProcessCall := true
  renderBuffer := .new kRenderBufferSize (by decide)
  framesSinceZeroBufferSize := 0
  renderPower := Vector.replicate _ 0
  renderPowerMean := Vector.replicate _ 0
  renderPowerStdDev := Vector.replicate _ 0
  covariances := Vector.replicate _ .new
  nextInsertionIndex := ⟨0, kLookbackFrames_pos⟩
  renderStatistics := .new
  captureStatistics := .new
  echoLikelihood := 0
  reliability := 0
  echoLikelihoodHistogram :=
    .new "WebRTC.Audio.ResidualEchoDetector.EchoLikelihood" 0 100 100
  recentLikelihoodMax := .new kAggregationBufferSize kAggregationBufferSize_pos
  logCounter := 0
  printed := []

/-! ## AnalyzeRenderAudio -/

/-- A render call on an empty buffer restarts the drift counter; one that finds the
counter at its limit discards a value and restarts it too. -/
def correctDrift (d : ResidualEchoDetector F) : ResidualEchoDetector F :=
  if d.renderBuffer.length = 0 then
    { d with framesSinceZeroBufferSize := 0 }
  else if d.framesSinceZeroBufferSize ≥ kRenderBufferSize then
    { d with
      renderBuffer := d.renderBuffer.pop.2
      framesSinceZeroBufferSize := 0 }
  else
    d

/-- `ResidualEchoDetector::AnalyzeRenderAudio` -/
def analyzeRenderAudio (d : ResidualEchoDetector F) (renderAudio : List F) :
    ResidualEchoDetector F :=
  let d := d.correctDrift
  { d with
    framesSinceZeroBufferSize := d.framesSinceZeroBufferSize + 1
    renderBuffer := d.renderBuffer.push (power renderAudio) }

/-! ## AnalyzeCaptureAudio -/

/-- On the first process call the render buffer is flushed, otherwise the render data
would be delayed. -/
def flush (d : ResidualEchoDetector F) : ResidualEchoDetector F :=
  if d.firstProcessCall then
    { d with
      renderBuffer := d.renderBuffer.clear
      firstProcessCall := false }
  else
    d

/-- Update the render statistics, and store them in the circular arrays. -/
def storeRender (d : ResidualEchoDetector F) (bufferedRenderPower : F) :
    ResidualEchoDetector F :=
  let renderStatistics := d.renderStatistics.update bufferedRenderPower
  let i := d.nextInsertionIndex
  { d with
    renderStatistics := renderStatistics
    renderPower := d.renderPower.set i bufferedRenderPower
    renderPowerMean := d.renderPowerMean.set i renderStatistics.mean
    renderPowerStdDev := d.renderPowerStdDev.set i renderStatistics.stdDeviation }

/-- Update the capture statistics. -/
def storeCapture (d : ResidualEchoDetector F) (capturePower : F) : ResidualEchoDetector F :=
  { d with captureStatistics := d.captureStatistics.update capturePower }

/-- The update of the estimator of one delay, from the render values at the read index. -/
def updateCovariance (d : ResidualEchoDetector F) (capturePower : F) (l : DelayLoop F)
    (delay : Fin kLookbackFrames) : NormalizedCovarianceEstimator F :=
  l.covariances[delay].update capturePower d.captureStatistics.mean
    d.captureStatistics.stdDeviation d.renderPower[l.readIndex]
    d.renderPowerMean[l.readIndex] d.renderPowerStdDev[l.readIndex]

/-- One iteration of the delay loop. -/
def delayStep (d : ResidualEchoDetector F) (capturePower : F) (l : DelayLoop F)
    (delay : Fin kLookbackFrames) : DelayLoop F :=
  let covariance := d.updateCovariance capturePower l delay
  let l := { l with
    covariances := l.covariances.set delay covariance
    readIndex := previousIndex l.readIndex }
  if l.echoLikelihood < covariance.normalizedCrossCorrelation then
    { l with
      echoLikelihood := covariance.normalizedCrossCorrelation
      bestDelay := delay.val }
  else
    l

/-- The delay loop after its first `n` iterations. -/
def delayLoop (d : ResidualEchoDetector F) (capturePower : F) :
    (n : ℕ) → n ≤ kLookbackFrames → DelayLoop F
  | 0, _ =>
    { covariances := d.covariances
      readIndex := d.nextInsertionIndex
      echoLikelihood := 0
      bestDelay := -1 }
  | n + 1, h => d.delayStep capturePower (d.delayLoop capturePower n (Nat.le_of_succ_le h)) ⟨n, h⟩

/-- The slot the diagnostic branch recomputes from the best delay. -/
def logIndex (d : ResidualEchoDetector F) (bestDelay : ℤ) : ℕ :=
  let readIndex := kLookbackFrames + d.nextInsertionIndex - bestDelay.toNat
  if readIndex ≥ kLookbackFrames then readIndex - kLookbackFrames else readIndex

/-- The diagnostic branch: the first few likelihoods above 1.1 are reported. -/
def logState (d : ResidualEchoDetector F) (capturePower : F) (bestDelay : ℤ) :
    ResidualEchoDetector F :=
  if 1.1 < d.echoLikelihood ∧ d.logCounter < 5 ∧ bestDelay ≠ -1 then
    let readIndex := d.logIndex bestDelay
    { d with
      logCounter := d.logCounter + 1
      printed := d.printed ++ [
        { echoLikelihood := d.echoLikelihood
          bestDelay := bestDelay
          covariance := (d.covariances.getD bestDelay.toNat .new).covariance
          lastCapturePower := capturePower
          captureMean := d.captureStatistics.mean
          captureStdDeviation := d.captureStatistics.stdDeviation
          lastRenderPower := d.renderPower.getD readIndex 0
          renderMean := d.renderPowerMean.getD readIndex 0
          renderStdDeviation := d.renderPowerStdDev.getD readIndex 0
          reliability := d.reliability }] }
  else
    d

/-- The end of the call: weigh the likelihood with the reliability, count it in the
histogram, update the recent maximum and advance the insertion index. -/
def settle (d : ResidualEchoDetector F) : ResidualEchoDetector F :=
  let reliability := (1 - kAlpha) * d.reliability + kAlpha * 1
  let echoLikelihood := stdMin (d.echoLikelihood * reliability) 1
  let echoPercentage := truncate (echoLikelihood * ofInt 100)
  { d with
    reliability := reliability
    echoLikelihood := echoLikelihood
    echoLikelihoodHistogram := d.echoLikelihoodHistogram.add echoPercentage
    recentLikelihoodMax := d.recentLikelihoodMax.update echoLikelihood
    nextInsertionIndex := followingIndex d.nextInsertionIndex }

/-- The delay loop of a call with these two powers: covariance updates and the largest
correlation. -/
def loopResult (d : ResidualEchoDetector F) (bufferedRenderPower capturePower : F) :
    DelayLoop F :=
  ((d.storeRender bufferedRenderPower).storeCapture capturePower).delayLoop capturePower
    kLookbackFrames le_rfl

/-- The part of `AnalyzeCaptureAudio` that a popped render value gets to. -/
def processFrame (d : ResidualEchoDetector F) (bufferedRenderPower capturePower : F) :
    ResidualEchoDetector F :=
  let l := d.loopResult bufferedRenderPower capturePower
  let d := (d.storeRender bufferedRenderPower).storeCapture capturePower
  let d := { d with
    covariances := l.covariances
    echoLikelihood := l.echoLikelihood }
  (d.logState capturePower l.bestDelay).settle

/-- The start of `AnalyzeCaptureAudio`: flush on the first call, then get the next render
value. -/
def popRender (d : ResidualEchoDetector F) : Option F × ResidualEchoDetector F :=
  let d := d.flush
  (d.renderBuffer.pop.1, { d with renderBuffer := d.renderBuffer.pop.2 })

/-- `ResidualEchoDetector::AnalyzeCaptureAudio` -/
def analyzeCaptureAudio (d : ResidualEchoDetector F) (captureAudio : List F) :
    ResidualEchoDetector F :=
  match d.popRender with
  | (none, d) =>
    -- at the start of a call, due to a glitch or due to clock drift: the excess capture
    -- value is ignored
    d
  | (some bufferedRenderPower, d) =>
    d.processFrame bufferedRenderPower (power captureAudio)

/-! ## Initialize, GetMetrics -/

/-- `ResidualEchoDetector::Initialize`: the four rates and channel counts are not used. -/
def initializeDetector (d : ResidualEchoDetector F) : ResidualEchoDetector F :=
  { d with
    renderBuffer := d.renderBuffer.clear
    renderPower := Vector.replicate _ 0
    renderPowerMean := Vector.replicate _ 0
    renderPowerStdDev := Vector.replicate _ 0
    renderStatistics := d.renderStatistics.clear
    captureStatistics := d.captureStatistics.clear
    recentLikelihoodMax := d.recentLikelihoodMax.clear
    covariances := d.covariances.map NormalizedCovarianceEstimator.clear
    echoLikelihood := 0
    nextInsertionIndex := ⟨0, kLookbackFrames_pos⟩
    reliability := 0 }

omit [FloatMath F] in
/-- `ResidualEchoDetector::SetReliabilityForTest` -/
def setReliabilityForTest (d : ResidualEchoDetector F) (value : F) : ResidualEchoDetector F :=
  { d with reliability := value }

/-- `ResidualEchoDetector::GetMetrics` -/
def getMetrics (d : ResidualEchoDetector F) : Metrics F where
  echoLikelihood := d.echoLikelihood
  echoLikelihoodRecentMax := d.recentLikelihoodMax.max

/-! ## Runs -/

/-- One call. -/
def step (d : ResidualEchoDetector F) : Call F → ResidualEchoDetector F
  | .analyzeRenderAudio x => d.analyzeRenderAudio x
  | .analyzeCaptureAudio y => d.analyzeCaptureAudio y
  | .initializeDetector => d.initializeDetector

/-- The state of a new detector after a sequence of calls. -/
def run (calls : List (Call F)) : ResidualEchoDetector F :=
  Machine.run step new calls

/-- The render value a capture call made now would get from the buffer. -/
def nextRenderPower (d : ResidualEchoDetector F) : Option F :=
  d.popRender.1

end ResidualEchoDetector

end AudioProc
