import AudioProc.History
import AudioProc.Pairing

/-!
# The detector refines its specification

The specification is a `Session`: a `Pairing` of render values with capture calls, and
the history of the frames processed since the last `Initialize`. `ResidualEchoDetector`
implements it with a circular buffer, three lookback arrays and estimators updated in
place:

* the buffering side is a projection: `pairing d` forgets the signal state, and every
  call on `d` is the corresponding operation on it;
* the signal side is `Tracks d h`: every signal field is the function `History` gives of
  `h`. One processed frame extends `h` by that frame (`Tracks.processFrame`);
* `run_refines` puts both together for whole runs, from which `getMetrics_run` reads the
  metrics off the history.
-/

namespace AudioProc

universe u

variable {F : Type u} [FloatMath F]

/-! ## The specification -/

/-- What a call is to the pairing: a render call brings the power of its frame. -/
def Call.event : Call F → Pairing.Event F
  | .analyzeRenderAudio x => .render (power x)
  | .analyzeCaptureAudio _ => .capture
  | .initializeDetector => .restart

namespace Call

omit [FloatMath F] in
/-- The frames of the render calls, in order. -/
def renderFrames : List (Call F) → List (List F)
  | [] => []
  | analyzeRenderAudio x :: calls => x :: renderFrames calls
  | _ :: calls => renderFrames calls

omit [FloatMath F] in
/-- The frames of the capture calls, in order. -/
def captureFrames : List (Call F) → List (List F)
  | [] => []
  | analyzeCaptureAudio y :: calls => y :: captureFrames calls
  | _ :: calls => captureFrames calls

omit [FloatMath F] in
@[simp] theorem renderFrames_append (calls calls' : List (Call F)) :
    renderFrames (calls ++ calls') = renderFrames calls ++ renderFrames calls' := by
  induction calls with
  | nil => rfl
  | cons c calls ih => cases c <;> simp [renderFrames, ih]

omit [FloatMath F] in
@[simp] theorem captureFrames_append (calls calls' : List (Call F)) :
    captureFrames (calls ++ calls') = captureFrames calls ++ captureFrames calls' := by
  induction calls with
  | nil => rfl
  | cons c calls ih => cases c <;> simp [captureFrames, ih]

theorem renders_event (calls : List (Call F)) :
    Pairing.Event.renders (calls.map event) = (renderFrames calls).map power := by
  induction calls with
  | nil => rfl
  | cons c calls ih =>
      cases c with
      | analyzeRenderAudio x => exact congrArg (power x :: ·) ih
      | analyzeCaptureAudio y => exact ih
      | initializeDetector => exact ih

theorem captures_event (calls : List (Call F)) :
    Pairing.Event.captures (calls.map event) = (captureFrames calls).length := by
  induction calls with
  | nil => rfl
  | cons c calls ih =>
      cases c with
      | analyzeRenderAudio x => exact ih
      | analyzeCaptureAudio y => exact congrArg (· + 1) ih
      | initializeDetector => exact ih

theorem eq_render_of_event {c : Call F} {r : F} (h : c.event = .render r) :
    ∃ x, c = .analyzeRenderAudio x ∧ power x = r := by
  cases c with
  | analyzeRenderAudio x => exact ⟨x, rfl, Pairing.Event.render.inj h⟩
  | analyzeCaptureAudio y => exact absurd h (by simp [event])
  | initializeDetector => exact absurd h (by simp [event])

end Call

/-- The calls of strictly alternating pairs of a render and a capture frame. -/
def alternating (pairs : List (List F × List F)) : List (Call F) :=
  pairs.flatMap fun p => [.analyzeRenderAudio p.1, .analyzeCaptureAudio p.2]

/-- What the detector stands for: the waiting render powers and the frames processed so
far, newest first. -/
structure Session (F : Type u) where
  pairing : Pairing kRenderBufferSize F
  history : List (Frame F)

namespace Session

def new : Session F where
  pairing := .new
  history := []

/-- One call: a capture call processes a frame when a render value is waiting. -/
def step (s : Session F) (c : Call F) : Session F where
  pairing := s.pairing.step c.event
  history :=
    match c with
    | .analyzeRenderAudio _ => s.history
    | .analyzeCaptureAudio y =>
      match s.pairing.next with
      | none => s.history
      | some r => ⟨r, power y⟩ :: s.history
    | .initializeDetector => []

/-- The session after a sequence of calls. -/
def run (calls : List (Call F)) : Session F :=
  Machine.run step new calls

@[simp] theorem run_nil : run ([] : List (Call F)) = new := rfl

theorem run_concat (calls : List (Call F)) (c : Call F) :
    run (calls ++ [c]) = (run calls).step c :=
  Machine.run_concat step new calls c

end Session

namespace ResidualEchoDetector

/-! ## The frames a run processes -/

/-- The history after one more call on detector `d`, whose history is `h`. -/
def record (d : ResidualEchoDetector F) (h : List (Frame F)) : Call F → List (Frame F)
  | .analyzeRenderAudio _ => h
  | .analyzeCaptureAudio y =>
    match d.nextRenderPower with
    | none => h
    | some r => ⟨r, power y⟩ :: h
  | .initializeDetector => []

/-- The detector together with its history. -/
def recordStep (p : ResidualEchoDetector F × List (Frame F)) (c : Call F) :
    ResidualEchoDetector F × List (Frame F) :=
  (p.1.step c, p.1.record p.2 c)

/-- The frames processed since construction or the last `Initialize`, newest first. -/
def history (calls : List (Call F)) : List (Frame F) :=
  (Machine.run recordStep (new, []) calls).2

theorem run_recordStep_fst (calls : List (Call F)) :
    (Machine.run recordStep (new, []) calls).1 = run calls := by
  refine Machine.run_rel (fun (p : ResidualEchoDetector F × List (Frame F)) d => p.1 = d)
    ?_ rfl calls
  intro p d c hp
  exact congrArg (step · c) hp

@[simp] theorem run_nil : run ([] : List (Call F)) = new := rfl

theorem run_concat (calls : List (Call F)) (c : Call F) :
    run (calls ++ [c]) = (run calls).step c :=
  Machine.run_concat step new calls c

theorem history_concat (calls : List (Call F)) (c : Call F) :
    history (calls ++ [c]) = (run calls).record (history calls) c := by
  rw [history, Machine.run_concat, recordStep, run_recordStep_fst]
  rfl

/-! ## The buffering side -/

/-- The detector with another buffering side. -/
def withBuffering (d : ResidualEchoDetector F) (first : Bool)
    (b : CircularBuffer F kRenderBufferSize) (n : ℕ) : ResidualEchoDetector F :=
  { d with
    firstProcessCall := first
    renderBuffer := b
    framesSinceZeroBufferSize := n }

/-- A render call changes nothing else. -/
theorem analyzeRenderAudio_buffering (d : ResidualEchoDetector F) (x : List F) :
    ∃ b n, d.analyzeRenderAudio x = d.withBuffering d.firstProcessCall b n := by
  simp only [analyzeRenderAudio, correctDrift]
  split_ifs
  · exact ⟨_, _, rfl⟩
  · exact ⟨_, _, rfl⟩
  · exact ⟨_, _, rfl⟩

/-- Getting the next render value changes nothing else. -/
theorem popRender_buffering (d : ResidualEchoDetector F) :
    ∃ b, d.popRender.2 = d.withBuffering false b d.framesSinceZeroBufferSize := by
  cases hfirst : d.firstProcessCall with
  | true =>
      simp only [popRender, flush, hfirst, if_true]
      exact ⟨_, rfl⟩
  | false =>
      simp only [popRender, flush, hfirst, Bool.false_eq_true, if_false]
      exact ⟨_, by rw [withBuffering, ← hfirst]⟩

/-- The buffering side of a detector. -/
def pairing (d : ResidualEchoDetector F) : Pairing kRenderBufferSize F where
  first := d.firstProcessCall
  backlog := d.renderBuffer.contents
  sinceEmpty := d.framesSinceZeroBufferSize

omit [FloatMath F] in
@[simp] theorem pairing_backlog (d : ResidualEchoDetector F) :
    d.pairing.backlog = d.renderBuffer.contents := rfl

omit [FloatMath F] in
theorem length_eq_zero_iff (d : ResidualEchoDetector F) :
    d.renderBuffer.length = 0 ↔ d.pairing.backlog = [] := by
  rw [pairing_backlog, ← List.length_eq_zero_iff, CircularBuffer.length_contents]

omit [FloatMath F] in
theorem pop_eq (b : CircularBuffer F kRenderBufferSize) :
    b.pop.1 = b.contents.head? ∧ b.pop.2.contents = b.contents.tail := by
  have h := b.contents_pop
  cases hc : b.contents with
  | nil =>
      rw [hc] at h
      exact Prod.mk.inj h
  | cons x q =>
      rw [hc] at h
      exact Prod.mk.inj h

omit [FloatMath F] in
theorem pairing_correctDrift (d : ResidualEchoDetector F) :
    d.correctDrift.pairing = d.pairing.correct := by
  by_cases hempty : d.renderBuffer.length = 0
  · rw [Pairing.correct_of_empty (d.length_eq_zero_iff.mp hempty), correctDrift,
      if_pos hempty]
    rfl
  · -- both sides compare the same counter with the same limit
    have hne : d.pairing.backlog ≠ [] := fun h => hempty (d.length_eq_zero_iff.mpr h)
    rcases Nat.lt_or_ge d.framesSinceZeroBufferSize kRenderBufferSize with hlt | hge
    · rw [Pairing.correct_of_young hne hlt, correctDrift, if_neg hempty,
        if_neg (Nat.not_le.mpr hlt)]
    · rw [Pairing.correct_of_drift hne hge, correctDrift, if_neg hempty, if_pos hge]
      simp [pairing, pop_eq]

theorem pairing_analyzeRenderAudio (d : ResidualEchoDetector F) (x : List F) :
    (d.analyzeRenderAudio x).pairing = d.pairing.render (power x) := by
  rw [Pairing.render, ← pairing_correctDrift]
  simp [analyzeRenderAudio, pairing, CircularBuffer.contents_push]

theorem flush_contents (d : ResidualEchoDetector F) :
    d.flush.renderBuffer.contents =
      if d.firstProcessCall then [] else d.renderBuffer.contents := by
  unfold flush
  split_ifs <;> rfl

theorem nextRenderPower_eq (d : ResidualEchoDetector F) :
    d.nextRenderPower = d.pairing.next := by
  show d.flush.renderBuffer.pop.1 = _
  rw [(pop_eq _).1, flush_contents]
  cases hfirst : d.firstProcessCall with
  | true => simp [Pairing.next, pairing, hfirst]
  | false => simp [Pairing.next, pairing, hfirst]

theorem flush_firstProcessCall (d : ResidualEchoDetector F) :
    d.flush.firstProcessCall = false := by
  by_cases hfirst : d.firstProcessCall = true
  · simp [flush, hfirst]
  · simp [flush, hfirst]

theorem flush_framesSinceZeroBufferSize (d : ResidualEchoDetector F) :
    d.flush.framesSinceZeroBufferSize = d.framesSinceZeroBufferSize := by
  unfold flush
  split_ifs <;> rfl

theorem popRender_pairing (d : ResidualEchoDetector F) :
    d.popRender.2.pairing = d.pairing.capture := by
  show Pairing.mk d.flush.firstProcessCall d.flush.renderBuffer.pop.2.contents
    d.flush.framesSinceZeroBufferSize = _
  rw [flush_firstProcessCall, flush_framesSinceZeroBufferSize, (pop_eq _).2, flush_contents,
    Pairing.capture]
  by_cases hfirst : d.firstProcessCall = true
  · simp [pairing, hfirst]
  · simp [pairing, hfirst]

/-- A capture call, given what the buffer holds for it. -/
theorem analyzeCaptureAudio_eq (d : ResidualEchoDetector F) (y : List F) :
    d.analyzeCaptureAudio y =
      match d.nextRenderPower with
      | none => d.popRender.2
      | some r => d.popRender.2.processFrame r (power y) := by
  unfold analyzeCaptureAudio nextRenderPower
  rcases d.popRender with ⟨_ | r, d'⟩
  · rfl
  · rfl

@[simp] theorem logState_pairing (d : ResidualEchoDetector F) (c : F) (b : ℤ) :
    (d.logState c b).pairing = d.pairing := by
  unfold logState
  split_ifs <;> rfl

theorem processFrame_pairing (d : ResidualEchoDetector F) (r c : F) :
    (d.processFrame r c).pairing = d.pairing := by
  show (logState _ c _).pairing = _
  rw [logState_pairing]
  rfl

theorem pairing_analyzeCaptureAudio (d : ResidualEchoDetector F) (y : List F) :
    (d.analyzeCaptureAudio y).pairing = d.pairing.capture := by
  rw [analyzeCaptureAudio_eq]
  cases d.nextRenderPower with
  | none => exact d.popRender_pairing
  | some r => exact (processFrame_pairing _ r _).trans d.popRender_pairing

theorem pairing_initializeDetector (d : ResidualEchoDetector F) :
    d.initializeDetector.pairing = d.pairing.restart := rfl

/-- **One call**, seen by the buffering side. -/
theorem pairing_step (d : ResidualEchoDetector F) (c : Call F) :
    (d.step c).pairing = d.pairing.step c.event := by
  cases c with
  | analyzeRenderAudio x => exact d.pairing_analyzeRenderAudio x
  | analyzeCaptureAudio y => exact d.pairing_analyzeCaptureAudio y
  | initializeDetector => exact d.pairing_initializeDetector

theorem pairing_run_from (d : ResidualEchoDetector F) (calls : List (Call F)) :
    (Machine.run step d calls).pairing =
      Machine.run Pairing.step d.pairing (calls.map Call.event) := by
  refine Machine.run_rel_map (fun (d : ResidualEchoDetector F) p => d.pairing = p) Call.event
    ?_ rfl calls
  rintro d _ c rfl
  exact d.pairing_step c

/-- The buffering side of a run is the run of its events. -/
theorem pairing_run (calls : List (Call F)) :
    (run calls).pairing = Pairing.run (calls.map Call.event) :=
  pairing_run_from new calls

/-! ## The signal side -/

/-- Every signal field of the detector is the function of its history that `History`
gives. -/
structure Tracks (d : ResidualEchoDetector F) (h : List (Frame F)) : Prop where
  renderStatistics : d.renderStatistics = History.renderStats h
  captureStatistics : d.captureStatistics = History.captureStats h
  renderPower : Lookback.Holds d.renderPower d.nextInsertionIndex
    fun k => History.renderPower (h.drop k)
  renderPowerMean : Lookback.Holds d.renderPowerMean d.nextInsertionIndex
    fun k => History.renderMean (h.drop k)
  renderPowerStdDev : Lookback.Holds d.renderPowerStdDev d.nextInsertionIndex
    fun k => History.renderStdDev (h.drop k)
  covariances : ∀ k (hk : k < kLookbackFrames), d.covariances[k] = History.covariance k h
  echoLikelihood : d.echoLikelihood = History.echoLikelihood h
  reliability : d.reliability = History.reliability h
  recentLikelihoodMax : d.recentLikelihoodMax = History.recentMax h

theorem Tracks.get_covariances {d : ResidualEchoDetector F} {h : List (Frame F)}
    (ht : d.Tracks h) (k : Fin kLookbackFrames) :
    d.covariances.get k = History.covariance k h :=
  ht.covariances k k.isLt

/-- The buffering side is no part of what the history determines. -/
theorem Tracks.withBuffering {d : ResidualEchoDetector F} {h : List (Frame F)}
    (ht : d.Tracks h) (first : Bool) (b : CircularBuffer F kRenderBufferSize) (n : ℕ) :
    (d.withBuffering first b n).Tracks h where
  renderStatistics := ht.renderStatistics
  captureStatistics := ht.captureStatistics
  renderPower := ht.renderPower
  renderPowerMean := ht.renderPowerMean
  renderPowerStdDev := ht.renderPowerStdDev
  covariances := ht.covariances
  echoLikelihood := ht.echoLikelihood
  reliability := ht.reliability
  recentLikelihoodMax := ht.recentLikelihoodMax

/-- The state in the middle of processing frame `p`: its statistics are stored, the
insertion index has not advanced yet. -/
structure Stored (d : ResidualEchoDetector F) (p : Frame F) (h : List (Frame F)) : Prop where
  renderStatistics : d.renderStatistics = History.renderStats (p :: h)
  captureStatistics : d.captureStatistics = History.captureStats (p :: h)
  renderPower : Lookback.Holds d.renderPower
    (Lookback.next kLookbackFrames d.nextInsertionIndex)
    fun k => History.renderPower ((p :: h).drop k)
  renderPowerMean : Lookback.Holds d.renderPowerMean
    (Lookback.next kLookbackFrames d.nextInsertionIndex)
    fun k => History.renderMean ((p :: h).drop k)
  renderPowerStdDev : Lookback.Holds d.renderPowerStdDev
    (Lookback.next kLookbackFrames d.nextInsertionIndex)
    fun k => History.renderStdDev ((p :: h).drop k)
  reliability : d.reliability = History.reliability h
  recentLikelihoodMax : d.recentLikelihoodMax = History.recentMax h

theorem Tracks.stored {d : ResidualEchoDetector F} {h : List (Frame F)} (ht : d.Tracks h)
    (r c : F) : ((d.storeRender r).storeCapture c).Stored ⟨r, c⟩ h := by
  have hi := d.nextInsertionIndex.isLt
  -- each array gets the newest value of its history in front of the old ones
  constructor
  · exact congrArg (·.update r) ht.renderStatistics
  · exact congrArg (·.update c) ht.captureStatistics
  · exact ht.renderPower.write hi r rfl fun _ => rfl
  · apply ht.renderPowerMean.write hi
    · exact congrArg (fun e => (e.update r).mean) ht.renderStatistics.symm
    · exact fun _ => rfl
  · apply ht.renderPowerStdDev.write hi
    · exact congrArg (fun e => (e.update r).stdDeviation) ht.renderStatistics.symm
    · exact fun _ => rfl
  · exact ht.reliability
  · exact ht.recentLikelihoodMax

/-- The delay loop and the diagnostic branch leave what was stored alone. -/
theorem Stored.logState {d : ResidualEchoDetector F} {p : Frame F} {h : List (Frame F)}
    (hs : d.Stored p h) (l : DelayLoop F) (c : F) (b : ℤ) :
    (({ d with
        covariances := l.covariances
        echoLikelihood := l.echoLikelihood } : ResidualEchoDetector F).logState c b).Stored
      p h := by
  simp only [ResidualEchoDetector.logState]
  split_ifs
  · exact ⟨hs.1, hs.2, hs.3, hs.4, hs.5, hs.6, hs.7⟩
  · exact ⟨hs.1, hs.2, hs.3, hs.4, hs.5, hs.6, hs.7⟩

/-- The end of the call: the frame is now part of the history. -/
theorem Stored.settle {d : ResidualEchoDetector F} {p : Frame F} {h : List (Frame F)}
    (hs : d.Stored p h)
    (hcov : ∀ k (hk : k < kLookbackFrames), d.covariances[k] = History.covariance k (p :: h))
    (hmax : d.echoLikelihood = History.loopLikelihood (p :: h)) :
    d.settle.Tracks (p :: h) := by
  have hrel : d.settle.reliability = History.reliability (p :: h) := by
    show (1 - kAlpha) * d.reliability + kAlpha * 1 = _
    rw [hs.reliability]
    rfl
  have hecho : d.settle.echoLikelihood = History.echoLikelihood (p :: h) := by
    show FloatOps.stdMin (d.echoLikelihood * d.settle.reliability) 1 = _
    rw [hmax, hrel]
    rfl
  refine ⟨hs.renderStatistics, hs.captureStatistics, hs.renderPower, hs.renderPowerMean,
    hs.renderPowerStdDev, hcov, hecho, hrel, ?_⟩
  show d.recentLikelihoodMax.update d.settle.echoLikelihood = _
  rw [hs.recentLikelihoodMax, hecho]
  rfl

theorem delayStep_covariances (d : ResidualEchoDetector F) (c : F) (l : DelayLoop F)
    (k : Fin kLookbackFrames) :
    (d.delayStep c l k).covariances = l.covariances.set k (d.updateCovariance c l k) k.isLt := by
  simp only [delayStep]
  split_ifs <;> rfl

theorem delayStep_readIndex (d : ResidualEchoDetector F) (c : F) (l : DelayLoop F)
    (k : Fin kLookbackFrames) :
    ((d.delayStep c l k).readIndex : ℕ) = Lookback.prev kLookbackFrames l.readIndex := by
  simp only [delayStep]
  split_ifs <;> rfl

theorem delayStep_echoLikelihood (d : ResidualEchoDetector F) (c : F) (l : DelayLoop F)
    (k : Fin kLookbackFrames) :
    (d.delayStep c l k).echoLikelihood =
      if l.echoLikelihood < (d.updateCovariance c l k).normalizedCrossCorrelation then
        (d.updateCovariance c l k).normalizedCrossCorrelation
      else l.echoLikelihood := by
  simp only [delayStep]
  split_ifs <;> rfl

/-- The estimator of delay `k` sees the frame with the render values of `k` frames ago. -/
theorem updateCovariance_eq {d : ResidualEchoDetector F} {p : Frame F} {h : List (Frame F)}
    (hs : d.Stored p h) {l : DelayLoop F} (k : Fin kLookbackFrames)
    (hread : (l.readIndex : ℕ) = Lookback.back kLookbackFrames
      (Lookback.next kLookbackFrames d.nextInsertionIndex) k)
    (hold : l.covariances[k] = History.covariance k h) :
    d.updateCovariance p.capture l k = History.covariance k (p :: h) := by
  rw [updateCovariance, hold, hs.captureStatistics, hs.renderPower.get k.isLt _ hread,
    hs.renderPowerMean.get k.isLt _ hread, hs.renderPowerStdDev.get k.isLt _ hread]
  rfl

/-- The delay loop after `n` iterations: estimators below `n` have seen the frame, each
with the render values of its own delay; the read index has walked back `n` slots; the
likelihood is the largest correlation so far. -/
theorem delayLoop_spec {d : ResidualEchoDetector F} {p : Frame F} {h : List (Frame F)}
    (hs : d.Stored p h)
    (hcovs : ∀ k (hk : k < kLookbackFrames), d.covariances[k] = History.covariance k h)
    (n : ℕ) (hn : n ≤ kLookbackFrames) :
    (n < kLookbackFrames → ((d.delayLoop p.capture n hn).readIndex : ℕ) =
      Lookback.back kLookbackFrames
        (Lookback.next kLookbackFrames d.nextInsertionIndex) n) ∧
    (∀ k (hk : k < kLookbackFrames), (d.delayLoop p.capture n hn).covariances[k] =
      if k < n then History.covariance k (p :: h) else History.covariance k h) ∧
    (d.delayLoop p.capture n hn).echoLikelihood =
      runningMax 0 (History.correlation (p :: h)) n := by
  induction n with
  | zero =>
      refine ⟨fun _ => ?_, ?_, rfl⟩
      · exact (Lookback.back_next_zero d.nextInsertionIndex.isLt).symm
      · intro k hk
        exact hcovs k hk
  | succ n ih =>
      -- estimator `n` has not seen the frame yet, and the read index stands at its values
      have hlt : n < kLookbackFrames := hn
      rcases ih hlt.le with ⟨hread, hcov, hmax⟩
      have hupd : d.updateCovariance p.capture (d.delayLoop p.capture n hlt.le) ⟨n, hlt⟩ =
          History.covariance n (p :: h) := by
        apply updateCovariance_eq hs ⟨n, hlt⟩ (hread hlt)
        simpa using hcov n hlt
      rw [delayLoop]
      refine ⟨fun hlt' => ?_, ?_, ?_⟩
      · rw [delayStep_readIndex, hread hlt, Lookback.prev_back_next hlt']
      · -- the estimators before `n` are done, `n` is written now, the rest are to come
        intro k hk
        simp only [delayStep_covariances, hupd]
        rw [Vector.getElem_set]
        rcases Nat.lt_trichotomy k n with hkn | rfl | hkn
        · rw [if_neg (Nat.ne_of_gt hkn), hcov k hk, if_pos hkn, if_pos (Nat.lt_succ_of_lt hkn)]
        · rw [if_pos rfl, if_pos (Nat.lt_succ_self _)]
        · rw [if_neg (Nat.ne_of_lt hkn), hcov k hk, if_neg (Nat.not_lt_of_gt hkn),
            if_neg (Nat.not_lt.mpr hkn)]
      · rw [delayStep_echoLikelihood, hupd, hmax]
        rfl

/-- The delay loop leaves the largest correlation of the extended history. -/
theorem Tracks.loopResult {d : ResidualEchoDetector F} {h : List (Frame F)} (ht : d.Tracks h)
    (r c : F) : (d.loopResult r c).echoLikelihood = History.loopLikelihood (⟨r, c⟩ :: h) :=
  (delayLoop_spec (ht.stored r c) ht.covariances kLookbackFrames le_rfl).2.2

/-- **One processed frame**: the detector tracks the history extended by it. -/
theorem Tracks.processFrame {d : ResidualEchoDetector F} {h : List (Frame F)}
    (ht : d.Tracks h) (r c : F) : (d.processFrame r c).Tracks (⟨r, c⟩ :: h) := by
  have hs := ht.stored r c
  have hmax := ht.loopResult r c
  rcases delayLoop_spec hs ht.covariances kLookbackFrames le_rfl with ⟨-, hcov, -⟩
  apply (hs.logState _ c _).settle
  · intro k hk
    simp only [ResidualEchoDetector.logState]
    split_ifs
    · exact (hcov k hk).trans (if_pos hk)
    · exact (hcov k hk).trans (if_pos hk)
  · simp only [ResidualEchoDetector.logState]
    split_ifs
    · exact hmax
    · exact hmax

theorem tracks_new : (new : ResidualEchoDetector F).Tracks [] where
  renderStatistics := rfl
  captureStatistics := rfl
  renderPower := Lookback.holds_replicate _ fun _ => by rw [List.drop_nil, History.renderPower]
  renderPowerMean := Lookback.holds_replicate _ fun _ => by rw [List.drop_nil, History.renderMean]
  renderPowerStdDev :=
    Lookback.holds_replicate _ fun _ => by rw [List.drop_nil, History.renderStdDev]
  covariances := by
    intro k hk
    exact Vector.getElem_replicate hk
  echoLikelihood := rfl
  reliability := rfl
  recentLikelihoodMax := rfl

/-- `Initialize` leads back to the empty history. -/
theorem Tracks.initializeDetector {d : ResidualEchoDetector F} {h : List (Frame F)}
    (ht : d.Tracks h) : d.initializeDetector.Tracks [] where
  renderStatistics := rfl
  captureStatistics := rfl
  renderPower := tracks_new.renderPower
  renderPowerMean := tracks_new.renderPowerMean
  renderPowerStdDev := tracks_new.renderPowerStdDev
  covariances := by
    intro k hk
    exact Vector.getElem_map NormalizedCovarianceEstimator.clear hk
  echoLikelihood := rfl
  reliability := rfl
  recentLikelihoodMax := by
    show d.recentLikelihoodMax.clear = _
    rw [ht.recentLikelihoodMax, History.recentMax_clear]

theorem Tracks.analyzeRenderAudio {d : ResidualEchoDetector F} {h : List (Frame F)}
    (ht : d.Tracks h) (x : List F) : (d.analyzeRenderAudio x).Tracks h := by
  rcases d.analyzeRenderAudio_buffering x with ⟨b, n, hd⟩
  rw [hd]
  exact ht.withBuffering _ b n

theorem Tracks.popRender {d : ResidualEchoDetector F} {h : List (Frame F)}
    (ht : d.Tracks h) : d.popRender.2.Tracks h := by
  rcases d.popRender_buffering with ⟨b, hd⟩
  rw [hd]
  exact ht.withBuffering _ b _

/-- **One call**: the detector tracks the recorded history. -/
theorem Tracks.step {d : ResidualEchoDetector F} {h : List (Frame F)} (ht : d.Tracks h)
    (c : Call F) : (d.step c).Tracks (d.record h c) := by
  cases c with
  | analyzeRenderAudio x => exact ht.analyzeRenderAudio x
  | analyzeCaptureAudio y =>
      simp only [ResidualEchoDetector.step, record, analyzeCaptureAudio_eq]
      cases d.nextRenderPower with
      | none => exact ht.popRender
      | some r => exact ht.popRender.processFrame r (power y)
  | initializeDetector => exact ht.initializeDetector

/-! ## Whole runs -/

/-- The rule for invariants that relate a detector to its history. -/
theorem run_history_invariant (inv : ResidualEchoDetector F → List (Frame F) → Prop)
    (hstep : ∀ d h c, inv d h → inv (d.step c) (d.record h c)) (hnew : inv new [])
    (calls : List (Call F)) : inv (run calls) (history calls) := by
  have hrun : inv (Machine.run recordStep (new, []) calls).1
      (Machine.run recordStep (new, []) calls).2 :=
    Machine.run_invariant (fun (p : ResidualEchoDetector F × List (Frame F)) => inv p.1 p.2)
      (fun p c => hstep p.1 p.2 c) hnew calls
  rwa [run_recordStep_fst] at hrun

/-- The signal state after a run is the function of the frames processed in it. -/
theorem tracks_run (calls : List (Call F)) : (run calls).Tracks (history calls) := by
  refine run_history_invariant Tracks ?_ tracks_new calls
  intro d h c ht
  exact ht.step c

/-- One call, seen by the specification. -/
theorem step_refines (d : ResidualEchoDetector F) (h : List (Frame F)) (c : Call F) :
    (Session.mk d.pairing h).step c = ⟨(d.step c).pairing, d.record h c⟩ := by
  rw [pairing_step]
  cases c with
  | analyzeRenderAudio x => rfl
  | analyzeCaptureAudio y => simp only [Session.step, record, nextRenderPower_eq]
  | initializeDetector => rfl

/-- **Refinement**: after every run the detector stands for the session of that run. -/
theorem run_refines (calls : List (Call F)) :
    Session.run calls = ⟨(run calls).pairing, history calls⟩ := by
  have hrun : Session.run calls =
      ⟨(Machine.run recordStep (new, []) calls).1.pairing,
        (Machine.run recordStep (new, []) calls).2⟩ := by
    have hnew : Session.new = ⟨(new : ResidualEchoDetector F).pairing, []⟩ := rfl
    refine Machine.run_rel
      (fun (s : Session F) (p : ResidualEchoDetector F × List (Frame F)) =>
        s = ⟨p.1.pairing, p.2⟩) ?_ (t := (new, [])) hnew calls
    rintro _ p c rfl
    exact step_refines p.1 p.2 c
  rw [hrun, run_recordStep_fst]
  rfl

theorem history_eq (calls : List (Call F)) : history calls = (Session.run calls).history := by
  rw [run_refines]

/-- The metrics of the detector are those of the frames it processed. -/
theorem Tracks.getMetrics {d : ResidualEchoDetector F} {h : List (Frame F)}
    (ht : d.Tracks h) : d.getMetrics = History.metrics h := by
  rw [ResidualEchoDetector.getMetrics, ht.echoLikelihood, ht.recentLikelihoodMax]
  rfl

theorem getMetrics_run (calls : List (Call F)) :
    (run calls).getMetrics = History.metrics (history calls) :=
  (tracks_run calls).getMetrics

end ResidualEchoDetector

end AudioProc
