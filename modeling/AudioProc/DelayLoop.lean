import AudioProc.Binary32
import AudioProc.Refinement

/-!
# One capture call

What `AnalyzeCaptureAudio` does when a render value is waiting, seen from any reachable
state: each of the 650 estimators is updated once, the one of delay `d` with the render
values stored `d` frames earlier; the likelihood the delay loop leaves is the largest of 0
and the updated correlations; and the best delay is the first one attaining it.

The diagnostic branch computes a slot from the best delay in one go, where the loop walks
back slot by slot. `logIndex_eq_readIndex` says that the two agree at every delay.

Nothing here needs exact arithmetic: `<` has to be a strict order, which it is on `ℝ` and
on `Float32`.
-/

namespace AudioProc

universe u

variable {F : Type u} [FloatMath F]

namespace ResidualEchoDetector

theorem delayStep_bestDelay (d : ResidualEchoDetector F) (c : F) (l : DelayLoop F)
    (k : Fin kLookbackFrames) :
    (d.delayStep c l k).bestDelay =
      if l.echoLikelihood < (d.updateCovariance c l k).normalizedCrossCorrelation then
        ((k : ℕ) : ℤ)
      else l.bestDelay := by
  simp only [delayStep]
  split_ifs <;> rfl

/-- Iteration `n` finds the estimator of its delay still as the last frame left it. -/
theorem updateCovariance_delayLoop {d : ResidualEchoDetector F} {p : Frame F}
    {h : List (Frame F)} (hs : d.Stored p h)
    (hcovs : ∀ k (hk : k < kLookbackFrames), d.covariances[k] = History.covariance k h)
    {n : ℕ} (hn : n < kLookbackFrames) :
    d.updateCovariance p.capture (d.delayLoop p.capture n hn.le) ⟨n, hn⟩ =
      History.covariance n (p :: h) := by
  rcases delayLoop_spec hs hcovs n hn.le with ⟨hread, hcov, -⟩
  have hold := hcov n hn
  rw [if_neg (Nat.lt_irrefl n)] at hold
  exact updateCovariance_eq hs ⟨n, hn⟩ (hread hn) hold

/-- The best delay is the iteration that raised the likelihood last. -/
theorem delayLoop_bestDelay {d : ResidualEchoDetector F} {p : Frame F} {h : List (Frame F)}
    (hs : d.Stored p h)
    (hcovs : ∀ k (hk : k < kLookbackFrames), d.covariances[k] = History.covariance k h)
    (n : ℕ) (hn : n ≤ kLookbackFrames) :
    (d.delayLoop p.capture n hn).bestDelay =
      runningArg 0 (History.correlation (p :: h)) n := by
  induction n with
  | zero => rfl
  | succ n ih =>
      have hlt : n < kLookbackFrames := hn
      rcases delayLoop_spec hs hcovs n hlt.le with ⟨-, -, hmax⟩
      rw [delayLoop, delayStep_bestDelay, updateCovariance_delayLoop hs hcovs hlt, hmax,
        ih hlt.le]
      rfl

/-! ## The slot of the diagnostic branch -/

omit [FloatMath F] in
theorem logIndex_eq (d : ResidualEchoDetector F) {k : ℕ} (hk : k < kLookbackFrames) :
    d.logIndex k = Lookback.back kLookbackFrames
      (Lookback.next kLookbackFrames d.nextInsertionIndex) k := by
  have hi := d.nextInsertionIndex.isLt
  rw [Lookback.back_eq (Lookback.next_lt kLookbackFrames_pos) hk]
  simp only [logIndex, Lookback.next, Int.toNat_natCast]
  split_ifs <;> omega

/-- One subtraction with at most one wrap against `k` steps back: the same slot. -/
theorem logIndex_eq_readIndex {d : ResidualEchoDetector F} {p : Frame F} {h : List (Frame F)}
    (hs : d.Stored p h)
    (hcovs : ∀ k (hk : k < kLookbackFrames), d.covariances[k] = History.covariance k h)
    {k : ℕ} (hk : k < kLookbackFrames) :
    d.logIndex k = (d.delayLoop p.capture k hk.le).readIndex := by
  rcases delayLoop_spec hs hcovs k hk.le with ⟨hread, -, -⟩
  rw [d.logIndex_eq hk, hread hk]

/-! ## The call -/

/-- A render value is popped once the first call is done and the buffer is not empty. -/
theorem nextRenderPower_isSome {d : ResidualEchoDetector F} (hfirst : d.firstProcessCall = false)
    (hbuffer : d.renderBuffer.length ≠ 0) : ∃ r, d.nextRenderPower = some r := by
  have hne : d.pairing.backlog ≠ [] := mt d.length_eq_zero_iff.mpr hbuffer
  rcases List.exists_cons_of_ne_nil hne with ⟨r, q, hq⟩
  refine ⟨r, ?_⟩
  rw [nextRenderPower_eq, Pairing.next, hq]
  show (if d.firstProcessCall = true then none else some r) = some r
  rw [hfirst]
  rfl

/-- **One capture call** on a reachable detector whose first call is done, with a render
value `r` waiting. With `h` the frames processed since `Initialize`, this one included and
newest first, so that `h.drop k` are those up to `k` frames ago:

* estimator `k` is its old value updated once, with the render power, mean and deviation of
  `k` frames ago, zeros where there are none;
* the likelihood of the delay loop, before the reliability factor, is 0 or one of the
  updated correlations, and none of them is above it;
* the best delay is the first one attaining it when it is positive, and -1 otherwise;
* the slot recomputed from the best delay is in range and the one the loop read. -/
theorem capture_call [IsStrictOrder F (· < ·)] (calls : List (Call F)) (y : List F)
    (hfirst : (run calls).firstProcessCall = false)
    (hbuffer : (run calls).renderBuffer.length ≠ 0) :
    ∃ r, (run calls).nextRenderPower = some r ∧
      let d := run calls
      let d' := d.analyzeCaptureAudio y
      let h := ⟨r, power y⟩ :: history calls
      let stored := (d.popRender.2.storeRender r).storeCapture (power y)
      let l := stored.delayLoop (power y) kLookbackFrames le_rfl
      let ncc := fun k : Fin kLookbackFrames => (d'.covariances.get k).normalizedCrossCorrelation
      d'.captureStatistics = d.captureStatistics.update (power y) ∧
      (∀ k : Fin kLookbackFrames, d'.covariances.get k = (d.covariances.get k).update (power y)
        d'.captureStatistics.mean d'.captureStatistics.stdDeviation
        (History.renderPower (h.drop k)) (History.renderMean (h.drop k))
        (History.renderStdDev (h.drop k))) ∧
      d'.echoLikelihood = FloatOps.stdMin (l.echoLikelihood * d'.reliability) 1 ∧
      (l.echoLikelihood = 0 ∨ ∃ k, l.echoLikelihood = ncc k) ∧
      ¬ l.echoLikelihood < 0 ∧ (∀ k, ¬ l.echoLikelihood < ncc k) ∧
      (¬ 0 < l.echoLikelihood ∧ l.bestDelay = -1 ∨
        0 < l.echoLikelihood ∧ ∃ k : Fin kLookbackFrames, l.bestDelay = (k : ℕ) ∧
          ncc k = l.echoLikelihood ∧ ∀ j < k, ncc j ≠ l.echoLikelihood) ∧
      ∀ k : Fin kLookbackFrames, l.bestDelay = (k : ℕ) →
        stored.logIndex l.bestDelay < kLookbackFrames ∧
        stored.logIndex l.bestDelay = (stored.delayLoop (power y) k k.isLt.le).readIndex := by
  rcases nextRenderPower_isSome hfirst hbuffer with ⟨r, hr⟩
  refine ⟨r, hr, ?_⟩
  intro d d' h stored l ncc
  have ht : d.Tracks (history calls) := tracks_run calls
  have hs : stored.Stored ⟨r, power y⟩ (history calls) := ht.popRender.stored r (power y)
  have hcovs : ∀ k (hk : k < kLookbackFrames), stored.covariances[k] =
      History.covariance k (history calls) := ht.popRender.covariances
  have hd' : d' = d.popRender.2.processFrame r (power y) := by
    show d.analyzeCaptureAudio y = _
    rw [analyzeCaptureAudio_eq, hr]
  have ht' : d'.Tracks h := by
    rw [hd']
    exact ht.popRender.processFrame r (power y)
  -- the loop is the running maximum of the updated correlations
  have hncc : ∀ k : Fin kLookbackFrames, ncc k = History.correlation h k := by
    intro k
    exact congrArg NormalizedCovarianceEstimator.normalizedCrossCorrelation
      (ht'.get_covariances k)
  have hmax : l.echoLikelihood = runningMax 0 (History.correlation h) kLookbackFrames :=
    (delayLoop_spec hs hcovs kLookbackFrames le_rfl).2.2
  have hbest : l.bestDelay = runningArg 0 (History.correlation h) kLookbackFrames :=
    delayLoop_bestDelay hs hcovs kLookbackFrames le_rfl
  have hcapture : d'.captureStatistics = d.captureStatistics.update (power y) := by
    rw [ht'.captureStatistics, ht.captureStatistics]
    rfl
  refine ⟨hcapture, ?_, ?_, ?_, ?_, ?_, ?_, ?_⟩
  · intro k
    rw [ht'.get_covariances, ht.get_covariances, ht'.captureStatistics]
    rfl
  · rw [ht'.echoLikelihood, ht'.reliability, hmax]
    rfl
  · rcases runningArg_cases 0 (History.correlation h) kLookbackFrames with
      ⟨-, hzero⟩ | ⟨k, hk, -, hvalue, -, -⟩
    · exact Or.inl (hmax.trans hzero)
    · exact Or.inr ⟨⟨k, hk⟩, (hmax.trans hvalue).trans (hncc ⟨k, hk⟩).symm⟩
  · rw [hmax]
    exact not_runningMax_lt_start _
  · intro k
    rw [hmax, hncc]
    exact not_runningMax_lt k.isLt
  · rcases runningArg_cases 0 (History.correlation h) kLookbackFrames with
      ⟨harg, hzero⟩ | ⟨k, hk, harg, hvalue, hpos, hearlier⟩
    · left
      rw [hmax, hbest, hzero]
      exact ⟨irrefl_of (· < ·) 0, harg⟩
    · right
      rw [hmax, hbest, hvalue]
      refine ⟨hpos, ⟨k, hk⟩, harg, hncc ⟨k, hk⟩, ?_⟩
      intro j hj
      rw [hncc]
      exact hearlier j hj
  · intro k hk
    have hindex := logIndex_eq_readIndex hs hcovs k.isLt
    rw [hk, hindex]
    exact ⟨Fin.isLt _, rfl⟩

/-- A full-scale frame on both sides: no updated correlation is above what the call weighs
with the reliability. -/
theorem capture_call_full_scale :
    let d := run [Call.analyzeCaptureAudio ([1] : List Float32), .analyzeRenderAudio [1]]
    let d' := d.analyzeCaptureAudio [1]
    ∃ x : Float32, d'.echoLikelihood = FloatOps.stdMin (x * d'.reliability) 1 ∧
      ∀ k : Fin kLookbackFrames, ¬ x < (d'.covariances.get k).normalizedCrossCorrelation := by
  intro d d'
  have hfirst : d.firstProcessCall = false := by decide +kernel
  have hbuffer : d.renderBuffer.length ≠ 0 := by decide +kernel
  rcases capture_call [.analyzeCaptureAudio [1], .analyzeRenderAudio [1]] [1] hfirst hbuffer with
    ⟨r, -, -, -, hecho, -, -, hbound, -⟩
  exact ⟨_, hecho, hbound⟩

end ResidualEchoDetector

end AudioProc
