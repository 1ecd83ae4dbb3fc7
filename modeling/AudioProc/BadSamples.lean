import AudioProc.Binary32Metrics
import AudioProc.DelayLoop
import AudioProc.Jitter

/-!
# Samples that are no numbers

What an infinity or a NaN among the samples does to the detector, in the arithmetic of the
program. The statistics of a side take such a value over and never lose it again; a correlation
of which one of the statistics is no number is NaN, numerator and denominator alike; and the
delay loop passes over NaN.

A capture frame reaches every delay at once. A render frame reaches delay `d` after `d` further
frames, all of them after 649. From then on the detector reports 0, until `Initialize`.

* `power_none`: one bad sample spoils the power of its frame;
* `correlation_capture`, `correlation_render`: the delays that are reached;
* `bad_frame_silences`: the runs of the detector.
-/

namespace AudioProc

open FloatOps Binary32

/-! ## The power of a frame -/

theorem foldl_none (input : List Float32) (acc : Float32)
    (h : value acc = none ∨ ∃ x ∈ input, value x = none) :
    value (input.foldl (fun acc x => acc + x * x) acc) = none := by
  induction input generalizing acc with
  | nil =>
      rcases h with hacc | ⟨x, hx, -⟩
      · exact hacc
      · exact absurd hx List.not_mem_nil
  | cons x input ih =>
      apply ih
      rcases h with hacc | ⟨y, hy, hbad⟩
      · exact Or.inl (value_add_none (Or.inl hacc))
      · rcases List.mem_cons.mp hy with rfl | hy
        · exact Or.inl (value_add_none (Or.inr (value_mul_none (Or.inl hbad))))
        · exact Or.inr ⟨y, hy, hbad⟩

/-- One sample is enough. -/
theorem power_none {input : List Float32} (h : ∃ x ∈ input, value x = none) :
    value (power input) = none := by
  have hne : input.isEmpty = false := by
    rcases h with ⟨x, hx, -⟩
    cases input with
    | nil => exact absurd hx List.not_mem_nil
    | cons _ _ => rfl
  unfold power
  rw [hne]
  exact value_div_none (foldl_none input _ (Or.inr h))

/-! ## The statistics -/

/-- The update with a value that is no number, or of statistics that are none. -/
theorem MeanVarianceEstimator.update_none (e : MeanVarianceEstimator Float32) (v : Float32)
    (h : value v = none ∨ value e.mean = none) :
    value (e.update v).mean = none ∧ value (e.update v).variance = none := by
  have hmean : value (e.update v).mean = none := by
    rcases h with hv | he
    · exact value_add_none (Or.inr (value_mul_none (Or.inr hv)))
    · exact value_add_none (Or.inl (value_mul_none (Or.inr he)))
  have hdeviation : value (v - (e.update v).mean) = none := value_sub_none (Or.inr hmean)
  exact ⟨hmean, value_add_none (Or.inr (value_mul_none (Or.inr hdeviation)))⟩

namespace History

variable {p : Frame Float32} {h : List (Frame Float32)}

/-- What is no number stays in the statistics. -/
theorem sideStats_none {side : Frame Float32 → Float32} (hp : p ∈ h)
    (hside : value (side p) = none) :
    value (sideStats side h).mean = none ∧ value (sideStats side h).variance = none := by
  induction h with
  | nil => exact absurd hp List.not_mem_nil
  | cons q h ih =>
      apply MeanVarianceEstimator.update_none
      rcases List.mem_cons.mp hp with rfl | hp
      · exact Or.inl hside
      · exact Or.inr (ih hp).1

theorem stdDeviation_none {e : MeanVarianceEstimator Float32} (h : value e.variance = none) :
    value e.stdDeviation = none :=
  value_sqrt_none h

/-- A correlation with a mean and a deviation that are no numbers. -/
theorem update_notANumber (e : NormalizedCovarianceEstimator Float32)
    {x xMean xSigma y yMean ySigma : Float32}
    (h : value xMean = none ∧ value xSigma = none ∨ value yMean = none ∧ value ySigma = none) :
    (e.update x xMean xSigma y yMean ySigma).normalizedCrossCorrelation.toModel.unpack =
      .notANumber := by
  apply unpack_div_none
  · refine value_add_none (Or.inr ?_)
    rcases h with ⟨hmean, -⟩ | ⟨hmean, -⟩
    · exact value_mul_none (Or.inl (value_mul_none (Or.inr (value_sub_none (Or.inr hmean)))))
    · exact value_mul_none (Or.inr (value_sub_none (Or.inr hmean)))
  · refine value_add_none (Or.inl ?_)
    rcases h with ⟨-, hsigma⟩ | ⟨-, hsigma⟩
    · exact value_mul_none (Or.inl hsigma)
    · exact value_mul_none (Or.inr hsigma)

/-- **A bad capture frame** reaches every delay. -/
theorem correlation_capture (hp : p ∈ h) (hbad : value p.capture = none) (d : ℕ) :
    (correlation h d).toModel.unpack = .notANumber := by
  have hstats := sideStats_none hp hbad
  rw [← captureStats_eq] at hstats
  cases h with
  | nil => exact absurd hp List.not_mem_nil
  | cons q h => exact update_notANumber _ (Or.inl ⟨hstats.1, stdDeviation_none hstats.2⟩)

/-- **A bad render frame** reaches delay `d` once it is `d` frames old. -/
theorem correlation_render {d : ℕ} (hp : p ∈ h.drop d) (hbad : value p.render = none) :
    (correlation h d).toModel.unpack = .notANumber := by
  have hstats := sideStats_none hp hbad
  rw [← renderStats_eq] at hstats
  have hrender : value (renderMean (h.drop d)) = none ∧ value (renderStdDev (h.drop d)) = none := by
    cases hd : h.drop d with
    | nil =>
        rw [hd] at hp
        exact absurd hp List.not_mem_nil
    | cons q l =>
        rw [hd] at hstats
        exact ⟨hstats.1, stdDeviation_none hstats.2⟩
  cases h with
  | nil =>
      rw [List.drop_nil] at hp
      exact absurd hp List.not_mem_nil
  | cons q h => exact update_notANumber _ (Or.inr hrender)

/-! ## The likelihood -/

/-- The delay loop passes over NaN. -/
theorem loopLikelihood_of_notANumber
    (hall : ∀ d < kLookbackFrames, (correlation h d).toModel.unpack = .notANumber) :
    value (loopLikelihood h) = some 0 := by
  rcases runningArg_cases Zero.zero (correlation h) kLookbackFrames with
    ⟨-, hzero⟩ | ⟨d, hd, -, -, hpos, -⟩
  · exact (congrArg value hzero).trans value_zero
  · exact absurd hpos (not_lt_notANumber (hall d hd))

theorem stdMin_zero {x : Float32} (hx : value x = some 0) :
    value (stdMin x One.one) = some 0 := by
  have hcap : ¬ One.one < x := by
    rw [lt_iff_value value_one hx]
    norm_num
  unfold FloatOps.stdMin
  rw [if_neg hcap]
  exact hx

/-- A likelihood of 0 stays one when it is weighed. -/
theorem echoLikelihood_of_zero (hloop : value (loopLikelihood h) = some 0) :
    value (echoLikelihood h) = some 0 := by
  cases h with
  | nil => exact value_zero
  | cons p h =>
      rcases reliability_unit (p :: h) with ⟨r, hr, hr₀, hr₁, -⟩
      have hzero : value (loopLikelihood (p :: h) * reliability (p :: h)) = some 0 := by
        have hround := rounds_mul hloop hr
        rw [zero_mul] at hround
        exact hround.exact zero_mem_grid (by norm_num)
      exact stdMin_zero hzero

end History

namespace ResidualEchoDetector

/-! ## Runs -/

section

universe u

variable {F : Type u} [FloatMath F]

/-- Without `Initialize` a history only grows, by one frame for each likelihood reported. -/
theorem history_append (pre : List (Call F)) {post : List (Call F)}
    (hpost : Call.initializeDetector ∉ post) :
    ∃ new, history (pre ++ post) = new ++ history pre ∧
      (likelihoods (pre ++ post)).length = (likelihoods pre).length + new.length := by
  induction post using List.reverseRecOn with
  | nil =>
      refine ⟨[], ?_, ?_⟩
      · rw [List.append_nil, List.nil_append]
      · rw [List.append_nil]
        rfl
  | append_singleton post c ih =>
      rw [List.mem_append, not_or, List.mem_singleton] at hpost
      rcases ih hpost.1 with ⟨new, hnew, hlength⟩
      rw [← List.append_assoc, history_concat, likelihoods_concat, List.length_append, hlength,
        hnew]
      cases c with
      | analyzeRenderAudio x => exact ⟨new, rfl, rfl⟩
      | analyzeCaptureAudio y =>
          rw [reported, record]
          cases (run (pre ++ post)).nextRenderPower with
          | none => exact ⟨new, rfl, rfl⟩
          | some r => exact ⟨⟨r, power y⟩ :: new, rfl, rfl⟩
      | initializeDetector => exact absurd rfl hpost.2

omit [FloatMath F] in
theorem initializeDetector_not_mem_alternating (pairs : List (List F × List F)) :
    Call.initializeDetector ∉ alternating pairs := by
  intro hmem
  rcases List.mem_flatMap.mp hmem with ⟨p, -, hp⟩
  simp at hp

/-- Behind a capture call every alternating pair is processed. -/
theorem length_likelihoods_alternating (c₀ : List F) (pairs : List (List F × List F)) :
    (likelihoods (.analyzeCaptureAudio c₀ :: alternating pairs)).length = pairs.length := by
  have hpost : Call.initializeDetector ∉ .analyzeCaptureAudio c₀ :: alternating pairs := by
    rw [List.mem_cons, not_or]
    exact ⟨nofun, initializeDetector_not_mem_alternating pairs⟩
  rcases history_append [] hpost with ⟨new, hnew, hlength⟩
  have hframes := (alternating_run c₀ pairs).2
  have hnone : (likelihoods ([] : List (Call F))).length = 0 := rfl
  have hsame : new.length = (frames pairs).length := by
    have hall : history (.analyzeCaptureAudio c₀ :: alternating pairs) = new ++ [] := hnew
    rw [hframes, List.append_nil] at hall
    rw [hall]
  rw [List.nil_append, hnone, hsame, frames, List.length_reverse, List.length_map, zero_add]
    at hlength
  exact hlength

end

/-- **One bad frame silences the detector**: when a capture call that gets a render power has a
sample that is no number, the likelihood is 0 from that call on; when the render power is none,
from the 649th processed frame after it on. Only `Initialize` ends that. -/
theorem bad_frame_silences (pre post : List (Call Float32)) (y : List Float32) {r : Float32}
    (hnext : (run pre).nextRenderPower = some r) (hpost : Call.initializeDetector ∉ post)
    (hbad : (∃ x ∈ y, value x = none) ∨ value r = none ∧
      (likelihoods (pre ++ [.analyzeCaptureAudio y])).length + 649 ≤
        (likelihoods (pre ++ [.analyzeCaptureAudio y] ++ post)).length) :
    value (run (pre ++ [.analyzeCaptureAudio y] ++ post)).getMetrics.echoLikelihood = some 0 := by
  have hframe : history (pre ++ [.analyzeCaptureAudio y]) = ⟨r, power y⟩ :: history pre := by
    rw [history_concat, record, hnext]
  rcases history_append (pre ++ [.analyzeCaptureAudio y]) hpost with ⟨new, hnew, hlength⟩
  rw [hframe] at hnew
  rw [getMetrics_run, hnew]
  apply History.echoLikelihood_of_zero
  apply History.loopLikelihood_of_notANumber
  intro d hd
  rcases hbad with hsample | ⟨hrender, hlate⟩
  · apply History.correlation_capture (p := ⟨r, power y⟩)
    · exact List.mem_append_right _ List.mem_cons_self
    · exact power_none hsample
  · apply History.correlation_render (p := ⟨r, power y⟩)
    · -- the frame is old enough for every delay
      have hold : d ≤ new.length := by
        have hless : d < 650 := hd
        omega
      rw [List.drop_append_of_le_length hold]
      exact List.mem_append_right _ List.mem_cons_self
    · exact hrender

/-- A NaN in the first capture frame that is processed, and one in a render frame with 649
frames behind it. -/
theorem bad_frame_silences_nan :
    let nan : Float32 := Float32.ofBits 0x7fc00000
    let first : Call Float32 := .analyzeCaptureAudio [1]
    let post : List (Call Float32) := alternating (List.replicate 649 ([1], [1]))
    value (run ([first, .analyzeRenderAudio [1]] ++ [.analyzeCaptureAudio [1, nan]] ++
      post)).getMetrics.echoLikelihood = some 0 ∧
    value (run ([first, .analyzeRenderAudio [nan]] ++ [.analyzeCaptureAudio [1]] ++
      post)).getMetrics.echoLikelihood = some 0 := by
  intro nan first post
  have hnan : value (Float32.ofBits 0x7fc00000) = none := rfl
  have hpost : Call.initializeDetector ∉ post := initializeDetector_not_mem_alternating _
  -- what the first capture call leaves is empty, so that the render value is the next one
  have hnext : ∀ x : List Float32,
      (run [first, .analyzeRenderAudio x]).nextRenderPower = some (power x) := by
    intro x
    have hrun : run [first, .analyzeRenderAudio x] = (run [first]).analyzeRenderAudio x := rfl
    rw [hrun, nextRenderPower_eq, pairing_analyzeRenderAudio]
    exact (settled_first [1]).next_render (by decide) (power x)
  constructor
  · have hbad : ∃ x ∈ [1, nan], value x = none :=
      ⟨nan, List.mem_cons_of_mem _ List.mem_cons_self, hnan⟩
    exact bad_frame_silences _ post [1, nan] (hnext [1]) hpost (Or.inl hbad)
  · have hbad : value (power [nan]) = none := power_none ⟨nan, List.mem_cons_self, hnan⟩
    have hone := length_likelihoods_alternating [(1 : Float32)] [([nan], [1])]
    have hall := length_likelihoods_alternating [(1 : Float32)]
      (([nan], [1]) :: List.replicate 649 ([1], [1]))
    rw [List.length_cons, List.length_replicate] at hall
    have hlate : (likelihoods ([first, .analyzeRenderAudio [nan]] ++
        [.analyzeCaptureAudio [1]])).length + 649 ≤
        (likelihoods ([first, .analyzeRenderAudio [nan]] ++ [.analyzeCaptureAudio [1]] ++
          post)).length := by
      exact (congrArg (· + 649) hone).trans_le hall.ge
    exact bad_frame_silences _ post [1] (hnext [nan]) hpost (Or.inr ⟨hbad, hlate⟩)

end ResidualEchoDetector

end AudioProc
