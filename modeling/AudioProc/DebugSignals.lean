import AudioProc.Disk
import AudioProc.Likelihood

/-!
# The debug signals of the detector

What `AnalyzeRenderAudio` and `AnalyzeCaptureAudio` hand to `data_dumper_`, call by call. A
capture call that gets no render value dumps its frame and nothing else; one that processes a
frame also dumps every quantity that it has computed on the way.

`writtenTo_dumped` says what the signals of a whole run are: the frames of the calls and the
quantities `History` gives of the frames processed.
-/

namespace AudioProc

universe u

variable {F : Type u}

/-- What is dumped of a processed frame. -/
inductive Quantity where
  | renderPower
  | renderPowerMean
  | renderPowerStdDev
  | capturePower
  | capturePowerMean
  | capturePowerStdDev
  | echoLikelihood
deriving DecidableEq

/-- The signals there are dump files of. -/
inductive Signal where
  | render16kMono
  | renderPower00
  | capture16kMono
  | ofFrame (q : Quantity)
deriving DecidableEq

/-- The first argument of `DumpRaw`. -/
def Quantity.name : Quantity → String
  | renderPower => "ed_render_power_100hz"
  | renderPowerMean => "ed_render_power_mean_100hz"
  | renderPowerStdDev => "ed_render_power_std_dev_100hz"
  | capturePower => "ed_capture_power_100hz"
  | capturePowerMean => "ed_capture_power_mean_100hz"
  | capturePowerStdDev => "ed_capture_power_std_dev_100hz"
  | echoLikelihood => "echo_likelihood_100hz"

/-- The first argument of `DumpRaw`. -/
def Signal.name : Signal → String
  | render16kMono => "ed_render_16k_mono"
  | renderPower00 => "ed_render_power_100hz_00"
  | capture16kMono => "ed_capture_16k_mono"
  | ofFrame q => q.name

theorem Quantity.name_inj {q q' : Quantity} (h : q.name = q'.name) : q = q' := by
  cases q <;> cases q' <;> first | rfl | exact absurd h (by decide)

theorem Quantity.name_ne (q : Quantity) : q.name ≠ Signal.render16kMono.name ∧
    q.name ≠ Signal.renderPower00.name ∧ q.name ≠ Signal.capture16kMono.name := by
  cases q <;> decide

/-- Different signals have different names. -/
theorem Signal.name_inj {s s' : Signal} (h : s.name = s'.name) : s = s' := by
  cases s with
  | render16kMono =>
      cases s' with
      | render16kMono => rfl
      | ofFrame q => exact absurd h.symm q.name_ne.1
      | renderPower00 => exact absurd h (by decide)
      | capture16kMono => exact absurd h (by decide)
  | renderPower00 =>
      cases s' with
      | renderPower00 => rfl
      | ofFrame q => exact absurd h.symm q.name_ne.2.1
      | render16kMono => exact absurd h (by decide)
      | capture16kMono => exact absurd h (by decide)
  | capture16kMono =>
      cases s' with
      | capture16kMono => rfl
      | ofFrame q => exact absurd h.symm q.name_ne.2.2
      | render16kMono => exact absurd h (by decide)
      | renderPower00 => exact absurd h (by decide)
  | ofFrame q =>
      cases s' with
      | ofFrame q' => exact congrArg ofFrame (Quantity.name_inj h)
      | render16kMono => exact absurd h q.name_ne.1
      | renderPower00 => exact absurd h q.name_ne.2.1
      | capture16kMono => exact absurd h q.name_ne.2.2

namespace ResidualEchoDetector

variable [FloatMath F]

/-! ## The dumps of a call -/

/-- The `DumpRaw` calls of `AnalyzeRenderAudio`. -/
def renderDumps (renderAudio : List F) : List (Signal × List F) :=
  [(.render16kMono, renderAudio), (.renderPower00, [power renderAudio])]

/-- The `DumpRaw` calls behind the pop of a render value. -/
def frameDumps (d : ResidualEchoDetector F) (bufferedRenderPower capturePower : F) :
    List (Signal × List F) :=
  let i := d.nextInsertionIndex
  let rendered := d.storeRender bufferedRenderPower
  let captured := rendered.storeCapture capturePower
  [(.ofFrame .renderPower, [rendered.renderPower.get i]),
    (.ofFrame .renderPowerMean, [rendered.renderPowerMean.get i]),
    (.ofFrame .renderPowerStdDev, [rendered.renderPowerStdDev.get i]),
    (.ofFrame .capturePower, [capturePower]),
    (.ofFrame .capturePowerMean, [captured.captureStatistics.mean]),
    (.ofFrame .capturePowerStdDev, [captured.captureStatistics.stdDeviation]),
    (.ofFrame .echoLikelihood,
      [(d.processFrame bufferedRenderPower capturePower).echoLikelihood])]

/-- The `DumpRaw` calls of `AnalyzeCaptureAudio`. -/
def captureDumps (d : ResidualEchoDetector F) (captureAudio : List F) :
    List (Signal × List F) :=
  (.capture16kMono, captureAudio) ::
    match d.popRender with
    | (none, _) => []
    | (some bufferedRenderPower, d) => d.frameDumps bufferedRenderPower (power captureAudio)

/-- The `DumpRaw` calls of a call, in order. -/
def dumps (d : ResidualEchoDetector F) : Call F → List (Signal × List F)
  | .analyzeRenderAudio x => renderDumps x
  | .analyzeCaptureAudio y => d.captureDumps y
  | .initializeDetector => []

/-- The `DumpRaw` calls of a run, in order. -/
def dumped (calls : List (Call F)) : List (Signal × List F) :=
  (Machine.observe step dumps new calls).flatten

theorem dumped_concat (calls : List (Call F)) (c : Call F) :
    dumped (calls ++ [c]) = dumped calls ++ (run calls).dumps c := by
  rw [dumped, Machine.observe_append, List.flatten_append, Machine.observe_cons,
    Machine.observe_nil, ← run, ← dumped, List.flatten_singleton]

end ResidualEchoDetector

/-! ## What the signals are -/

namespace Session

variable [FloatMath F]

/-- The history a call leaves, when it processes a frame. -/
def processed (s : Session F) : Call F → Option (List (Frame F))
  | .analyzeRenderAudio _ => none
  | .analyzeCaptureAudio y => s.pairing.next.map fun r => ⟨r, power y⟩ :: s.history
  | .initializeDetector => none

/-- The histories that the processed frames of a run left, in order. -/
def histories (calls : List (Call F)) : List (List (Frame F)) :=
  (Machine.observe step processed new calls).filterMap id

@[simp] theorem histories_nil : histories ([] : List (Call F)) = [] := rfl

theorem histories_concat (calls : List (Call F)) (c : Call F) :
    histories (calls ++ [c]) = histories calls ++ ((run calls).processed c).toList := by
  rw [histories, Machine.observe_append, List.filterMap_append, Machine.observe_cons,
    Machine.observe_nil, ← run, ← histories]
  cases (run calls).processed c <;> rfl

end Session

/-- The newest capture power. -/
def History.capturePower [FloatOps F] : List (Frame F) → F
  | [] => 0
  | p :: _ => p.capture

/-- A quantity after the frames of a history. -/
def Quantity.value [FloatMath F] : Quantity → List (Frame F) → F
  | renderPower, h => History.renderPower h
  | renderPowerMean, h => History.renderMean h
  | renderPowerStdDev, h => History.renderStdDev h
  | capturePower, h => History.capturePower h
  | capturePowerMean, h => (History.captureStats h).mean
  | capturePowerStdDev, h => (History.captureStats h).stdDeviation
  | echoLikelihood, h => History.echoLikelihood h

/-- A signal of a run. -/
def Signal.stream [FloatMath F] : Signal → List (Call F) → List F
  | render16kMono, calls => (Call.renderFrames calls).flatten
  | renderPower00, calls => (Call.renderFrames calls).map power
  | capture16kMono, calls => (Call.captureFrames calls).flatten
  | ofFrame q, calls => (Session.histories calls).map q.value

/-- The run has brought something of the signal, be it an empty frame. -/
def Signal.Seen [FloatMath F] : Signal → List (Call F) → Prop
  | render16kMono, calls => Call.renderFrames calls ≠ []
  | renderPower00, calls => Call.renderFrames calls ≠ []
  | capture16kMono, calls => Call.captureFrames calls ≠ []
  | ofFrame _, calls => Session.histories calls ≠ []

/-- The quantities of a frame, in the order in which they are dumped. -/
def Quantity.all : List Quantity :=
  [renderPower, renderPowerMean, renderPowerStdDev, capturePower, capturePowerMean,
    capturePowerStdDev, echoLikelihood]

/-- The dumps of a frame that leaves the history `h`. -/
def quantities [FloatMath F] (h : List (Frame F)) : List (Signal × List F) :=
  Quantity.all.map fun q => (.ofFrame q, [q.value h])

/-- The dumps of a call, seen by the specification. -/
def Session.dumps [FloatMath F] (s : Session F) : Call F → List (Signal × List F)
  | .analyzeRenderAudio x => ResidualEchoDetector.renderDumps x
  | .analyzeCaptureAudio y =>
    (.capture16kMono, y) :: (s.processed (.analyzeCaptureAudio y)).toList.flatMap quantities
  | .initializeDetector => []

namespace ResidualEchoDetector

variable [FloatMath F]

omit [FloatMath F] in
theorem get_set (v : Vector F kLookbackFrames) (i : Fin kLookbackFrames) (x : F) :
    (v.set i x i.isLt).get i = x :=
  Vector.getElem_set_self i.isLt

/-- The quantities that are dumped are those of the history. -/
theorem Tracks.frameDumps {d : ResidualEchoDetector F} {h : List (Frame F)} (ht : d.Tracks h)
    (r c : F) : d.frameDumps r c = quantities (⟨r, c⟩ :: h) := by
  have hpower : (d.storeRender r).renderPower.get d.nextInsertionIndex =
      History.renderPower (⟨r, c⟩ :: h) :=
    get_set _ _ _
  have hmean : (d.storeRender r).renderPowerMean.get d.nextInsertionIndex =
      History.renderMean (⟨r, c⟩ :: h) := by
    rw [History.renderMean, History.renderStats, ← ht.renderStatistics]
    exact get_set _ _ _
  have hdeviation : (d.storeRender r).renderPowerStdDev.get d.nextInsertionIndex =
      History.renderStdDev (⟨r, c⟩ :: h) := by
    rw [History.renderStdDev, History.renderStats, ← ht.renderStatistics]
    exact get_set _ _ _
  have hcapture : ((d.storeRender r).storeCapture c).captureStatistics =
      History.captureStats (⟨r, c⟩ :: h) := by
    rw [History.captureStats, ← ht.captureStatistics]
    rfl
  have hecho := (ht.processFrame r c).echoLikelihood
  simp only [ResidualEchoDetector.frameDumps, hpower, hmean, hdeviation, hcapture, hecho]
  rfl

/-- **One call** dumps what the specification says. -/
theorem Tracks.dumps {d : ResidualEchoDetector F} {h : List (Frame F)} (ht : d.Tracks h)
    (c : Call F) : d.dumps c = (Session.mk d.pairing h).dumps c := by
  cases c with
  | analyzeRenderAudio x => rfl
  | analyzeCaptureAudio y =>
      have hnext : d.pairing.next = d.popRender.1 := d.nextRenderPower_eq.symm
      have hpopped := ht.popRender
      rw [ResidualEchoDetector.dumps, captureDumps, Session.dumps, Session.processed, hnext]
      rcases hpop : d.popRender with ⟨_ | r, d'⟩
      · rfl
      · -- the frame is processed after the pop, which leaves the history as it is
        rw [hpop] at hpopped
        simp only [Option.map_some, Option.toList_some, List.flatMap_cons, List.flatMap_nil,
          List.append_nil]
        exact congrArg _ (hpopped.frameDumps r (power y))
  | initializeDetector => rfl

theorem dumps_run (calls : List (Call F)) (c : Call F) :
    (run calls).dumps c = (Session.run calls).dumps c := by
  rw [(tracks_run calls).dumps, run_refines]

end ResidualEchoDetector

/-! ## The signals of a run -/

namespace Signal

variable [FloatMath F]

theorem writtenTo_quantities (q : Quantity) (h : List (Frame F)) :
    writtenTo (ofFrame q) (quantities h) = [q.value h] := by
  cases q <;> rfl

theorem writtenTo_quantities_of_ne {s : Signal} (hs : ∀ q, s ≠ ofFrame q)
    (h : List (Frame F)) : writtenTo s (quantities h) = [] := by
  apply writtenTo_of_not_mem
  intro hmem
  rcases List.mem_map.mp hmem with ⟨entry, hentry, rfl⟩
  rcases List.mem_map.mp hentry with ⟨q, -, rfl⟩
  exact hs q rfl

theorem mem_quantities (q : Quantity) (h : List (Frame F)) :
    ofFrame q ∈ (quantities h).map Prod.fst := by
  cases q <;> simp [quantities, Quantity.all]

/-- The frame signals get the quantities of the frames that a call processes. -/
theorem writtenTo_processed (s : Signal) (o : Option (List (Frame F))) :
    writtenTo s (o.toList.flatMap quantities) =
      match s with
      | ofFrame q => o.toList.map q.value
      | _ => [] := by
  cases o with
  | none => cases s <;> rfl
  | some h =>
      rw [Option.toList_some, List.flatMap_singleton]
      cases s with
      | ofFrame q => exact writtenTo_quantities q h
      | render16kMono => exact writtenTo_quantities_of_ne (by simp) h
      | renderPower00 => exact writtenTo_quantities_of_ne (by simp) h
      | capture16kMono => exact writtenTo_quantities_of_ne (by simp) h

/-- **One call** appends its dumps to the signals. -/
theorem stream_concat (s : Signal) (calls : List (Call F)) (c : Call F) :
    s.stream (calls ++ [c]) = s.stream calls ++ writtenTo s ((Session.run calls).dumps c) := by
  cases c with
  | analyzeRenderAudio x =>
      rw [Session.dumps, ResidualEchoDetector.renderDumps, writtenTo_cons, writtenTo_cons,
        writtenTo_nil]
      cases s <;> simp [stream, Call.renderFrames, Call.captureFrames,
        Session.histories_concat, Session.processed]
  | analyzeCaptureAudio y =>
      rw [Session.dumps, writtenTo_cons, writtenTo_processed]
      cases s <;> simp [stream, Call.renderFrames, Call.captureFrames,
        Session.histories_concat]
  | initializeDetector =>
      rw [Session.dumps, writtenTo_nil, List.append_nil]
      cases s <;> simp [stream, Call.renderFrames, Call.captureFrames,
        Session.histories_concat, Session.processed]

/-- A signal has been seen as soon as a call has dumped something of it. -/
theorem seen_concat (s : Signal) (calls : List (Call F)) (c : Call F) :
    s.Seen (calls ++ [c]) ↔
      s.Seen calls ∨ s ∈ ((Session.run calls).dumps c).map Prod.fst := by
  cases c with
  | analyzeRenderAudio x =>
      cases s <;> simp [Seen, Session.dumps, ResidualEchoDetector.renderDumps,
        Call.renderFrames, Call.captureFrames, Session.histories_concat, Session.processed]
  | analyzeCaptureAudio y =>
      rw [Session.dumps, List.map_cons, List.mem_cons]
      cases hprocessed : (Session.run calls).processed (.analyzeCaptureAudio y) with
      | none =>
          cases s <;> simp [Seen, Call.renderFrames, Call.captureFrames,
            Session.histories_concat, hprocessed]
      | some h =>
          rw [Option.toList_some, List.flatMap_singleton]
          cases s with
          | ofFrame q =>
              have hall := mem_quantities q h
              simp [Seen, Session.histories_concat, hprocessed, hall]
          | render16kMono => simp [Seen, Call.renderFrames, quantities]
          | renderPower00 => simp [Seen, Call.renderFrames, quantities]
          | capture16kMono => simp [Seen, Call.captureFrames, quantities]
  | initializeDetector =>
      cases s <;> simp [Seen, Session.dumps, Call.renderFrames, Call.captureFrames,
        Session.histories_concat, Session.processed]

end Signal

namespace ResidualEchoDetector

variable [FloatMath F]

/-- **The signals of a run** are the frames of its calls and the quantities of the frames
processed in it. -/
theorem writtenTo_dumped (s : Signal) (calls : List (Call F)) :
    writtenTo s (dumped calls) = s.stream calls := by
  induction calls using List.reverseRecOn with
  | nil => cases s <;> rfl
  | append_singleton calls c ih =>
      rw [dumped_concat, writtenTo_append, ih, dumps_run, s.stream_concat]

/-- A signal is dumped at all if and only if the run has brought something of it. -/
theorem mem_dumped (s : Signal) (calls : List (Call F)) :
    s ∈ (dumped calls).map Prod.fst ↔ s.Seen calls := by
  induction calls using List.reverseRecOn with
  | nil => cases s <;> simp [dumped, Signal.Seen, Call.renderFrames, Call.captureFrames]
  | append_singleton calls c ih =>
      rw [dumped_concat, List.map_append, List.mem_append, ih, dumps_run, s.seen_concat]

end ResidualEchoDetector

end AudioProc
