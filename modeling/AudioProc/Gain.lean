import AudioProc.Likelihood

/-!
# What gains do to the likelihood

A run is repeated with every render sample multiplied by `g` and every capture sample by
`h`. No buffering decision looks at a sample, so both runs process the same frames, with
render powers times `g ^ 2` and capture powers times `h ^ 2` (`history_gain`).

On the scaled history the means scale like the powers, the deviations too, and every
covariance by `S = g ^ 2 * h ^ 2`, while the regulariser stays what it is. Each
correlation is therefore `S C / (S sx sy + 0.0001)`, which moves away from 0 as `S` grows;
a maximum that starts at 0 follows.
-/

namespace AudioProc

namespace Frame

/-- The powers of a frame under gains on its two sides. -/
def gain (G H : ℝ) (p : Frame ℝ) : Frame ℝ where
  render := G * p.render
  capture := H * p.capture

end Frame

/-- A call with the gain `g` on render samples and `h` on capture samples. -/
def Call.gain (g h : ℝ) : Call ℝ → Call ℝ
  | .analyzeRenderAudio x => .analyzeRenderAudio (x.map (g * ·))
  | .analyzeCaptureAudio y => .analyzeCaptureAudio (y.map (h * ·))
  | .initializeDetector => .initializeDetector

namespace History

/-! ## The estimators on a scaled history -/

section Scaled

variable (G H : ℝ) (h : List (Frame ℝ))

/-- Where a gain multiplies one side by `g`, the mean of that side follows, and its
variance with the square. -/
theorem sideStats_gain {side : Frame ℝ → ℝ} {g : ℝ}
    (hside : ∀ p, side (Frame.gain G H p) = g * side p) :
    (sideStats side (h.map (Frame.gain G H))).mean = g * (sideStats side h).mean ∧
      (sideStats side (h.map (Frame.gain G H))).variance =
        g ^ 2 * (sideStats side h).variance := by
  induction h with
  | nil =>
      constructor
      · exact (mul_zero _).symm
      · exact (mul_zero _).symm
  | cons p h ih =>
      have hmean : (sideStats side ((p :: h).map (Frame.gain G H))).mean =
          g * (sideStats side (p :: h)).mean := by
        rw [List.map_cons, sideStats_mean_cons, sideStats_mean_cons, ih.1, hside]
        ring
      constructor
      · exact hmean
      · rw [List.map_cons] at hmean ⊢
        rw [sideStats_variance_cons, sideStats_variance_cons, hmean, ih.2, hside]
        ring

theorem renderStats_gain :
    (sideStats Frame.render (h.map (Frame.gain G H))).mean =
        G * (sideStats Frame.render h).mean ∧
      (sideStats Frame.render (h.map (Frame.gain G H))).variance =
        G ^ 2 * (sideStats Frame.render h).variance :=
  sideStats_gain G H h fun _ => rfl

theorem captureStats_gain :
    (sideStats Frame.capture (h.map (Frame.gain G H))).mean =
        H * (sideStats Frame.capture h).mean ∧
      (sideStats Frame.capture (h.map (Frame.gain G H))).variance =
        H ^ 2 * (sideStats Frame.capture h).variance :=
  sideStats_gain G H h fun _ => rfl

theorem renderPower_gain : renderPower (h.map (Frame.gain G H)) = G * renderPower h := by
  cases h with
  | nil => exact (mul_zero _).symm
  | cons p h => rfl

theorem covariance_gain (d : ℕ) :
    (covariance d (h.map (Frame.gain G H))).covariance =
      G * H * (covariance d h).covariance := by
  induction h with
  | nil => exact (mul_zero _).symm
  | cons p h ih =>
      have hcapture := (captureStats_gain G H (p :: h)).1
      have hrender := (renderStats_gain G H ((p :: h).drop d)).1
      have hpower := renderPower_gain G H ((p :: h).drop d)
      rw [List.map_drop] at hrender hpower
      rw [List.map_cons] at hcapture hrender hpower ⊢
      rw [covariance_cons, covariance_cons, ih, hcapture, hrender, hpower, Frame.gain]
      ring

theorem stdDeviation_gain (hH : 0 ≤ H) :
    (captureStats (h.map (Frame.gain G H))).stdDeviation =
      H * (captureStats h).stdDeviation := by
  rw [captureStdDev_real, (captureStats_gain G H h).2, Real.sqrt_mul (sq_nonneg H),
    Real.sqrt_sq hH, captureStdDev_real]

theorem renderStdDev_gain (hG : 0 ≤ G) :
    renderStdDev (h.map (Frame.gain G H)) = G * renderStdDev h := by
  rw [renderStdDev_real, (renderStats_gain G H h).2, Real.sqrt_mul (sq_nonneg G),
    Real.sqrt_sq hG, renderStdDev_real]

/-- **The gain law** for one delay. -/
theorem correlation_gain (hG : 0 ≤ G) (hH : 0 ≤ H) (d : ℕ) :
    correlation (h.map (Frame.gain G H)) d = G * H * (covariance d h).covariance /
      (G * H * ((captureStats h).stdDeviation * renderStdDev (h.drop d)) + 1 / 10000) := by
  rw [correlation_eq, covariance_gain, stdDeviation_gain G H h hH, ← List.map_drop,
    renderStdDev_gain G H _ hG]
  congr 1
  ring

end Scaled

/-! ## Comparing two scales -/

/-- A regularised quotient that is not negative grows with its scale. -/
theorem scaled_quotient_mono {C s ε S T : ℝ} (hC : 0 ≤ C) (hs : 0 ≤ s) (hε : 0 < ε)
    (hS : 0 ≤ S) (hST : S ≤ T) : S * C / (S * s + ε) ≤ T * C / (T * s + ε) := by
  have hT : 0 ≤ T := hS.trans hST
  rw [div_le_div_iff₀ (by positivity) (by positivity)]
  -- the cross products differ by this much
  have hgap : 0 ≤ (T - S) * (C * ε) :=
    mul_nonneg (sub_nonneg.mpr hST) (mul_nonneg hC hε.le)
  linarith

/-- What the delay loop finds grows with the scale of the powers. -/
theorem loopLikelihood_gain_mono {G H G' H' : ℝ} (hG : 0 ≤ G) (hH : 0 ≤ H) (hG' : 0 ≤ G')
    (hH' : 0 ≤ H') (hle : G * H ≤ G' * H') (h : List (Frame ℝ)) :
    loopLikelihood (h.map (Frame.gain G H)) ≤ loopLikelihood (h.map (Frame.gain G' H')) := by
  apply runningMax_mono
  intro d _
  have hs : 0 ≤ (captureStats h).stdDeviation * renderStdDev (h.drop d) := by
    rw [renderStdDev_real]
    exact mul_nonneg (Real.sqrt_nonneg _) (Real.sqrt_nonneg _)
  have hS : 0 ≤ G * H := mul_nonneg hG hH
  rw [correlation_gain G H h hG hH, correlation_gain G' H' h hG' hH']
  rcases le_total 0 (covariance d h).covariance with hC | hC
  · exact (scaled_quotient_mono hC hs (by norm_num) hS hle).trans (le_max_right _ _)
  · -- a negative correlation never beats the start value 0
    refine le_max_of_le_left (div_nonpos_of_nonpos_of_nonneg ?_ (by positivity))
    exact mul_nonpos_of_nonneg_of_nonpos hS hC

theorem echoLikelihood_gain_mono {G H G' H' : ℝ} (hG : 0 ≤ G) (hH : 0 ≤ H) (hG' : 0 ≤ G')
    (hH' : 0 ≤ H') (hle : G * H ≤ G' * H') (h : List (Frame ℝ)) :
    echoLikelihood (h.map (Frame.gain G H)) ≤ echoLikelihood (h.map (Frame.gain G' H')) := by
  have hloop := loopLikelihood_gain_mono hG hH hG' hH' hle h
  cases h with
  | nil => exact le_rfl
  | cons p h =>
      simp only [List.map_cons] at hloop ⊢
      rw [echoLikelihood_cons, echoLikelihood_cons, reliability_eq, reliability_eq]
      simp only [List.length_cons, List.length_map]
      -- both histories have the same reliability
      apply mul_le_mul_of_nonneg_right hloop
      rw [sub_nonneg]
      exact pow_le_one₀ (by norm_num) (by norm_num)

theorem gain_one (h : List (Frame ℝ)) : h.map (Frame.gain 1 1) = h := by
  have hid : Frame.gain 1 1 = id := by
    funext p
    rw [Frame.gain, one_mul, one_mul]
    rfl
  rw [hid, List.map_id]

/-- Without power on one of the sides nothing correlates. -/
theorem echoLikelihood_gain_zero {G H : ℝ} (hG : 0 ≤ G) (hH : 0 ≤ H) (hzero : G * H = 0)
    (h : List (Frame ℝ)) : echoLikelihood (h.map (Frame.gain G H)) = 0 := by
  have hloop : loopLikelihood (h.map (Frame.gain G H)) = 0 := by
    apply le_antisymm _ (loopLikelihood_nonneg _)
    apply runningMax_le le_rfl
    intro d _
    rw [correlation_gain G H h hG hH, hzero, zero_mul, zero_div]
  cases h with
  | nil => rfl
  | cons p h =>
      rw [List.map_cons] at hloop ⊢
      rw [echoLikelihood_cons, hloop, zero_mul]

end History

namespace ResidualEchoDetector

/-! ## Two runs -/

theorem power_gain (g : ℝ) (x : List ℝ) : power (x.map (g * ·)) = g ^ 2 * power x := by
  have hfold : ∀ (acc : ℝ) (xs : List ℝ),
      (xs.map (g * ·)).foldl (fun acc x => acc + x * x) (g ^ 2 * acc) =
        g ^ 2 * xs.foldl (fun acc x => acc + x * x) acc := by
    intro acc xs
    induction xs generalizing acc with
    | nil => rfl
    | cons v xs ih =>
        rw [List.map_cons, List.foldl_cons, List.foldl_cons, ← ih]
        congr 1
        ring
  cases x with
  | nil => exact (mul_zero _).symm
  | cons v x =>
      have hsum := hfold 0 (v :: x)
      rw [mul_zero] at hsum
      show (List.foldl _ 0 ((v :: x).map (g * ·))) / (((v :: x).map (g * ·)).length : ℝ) =
        g ^ 2 * (List.foldl _ 0 (v :: x) / ((v :: x).length : ℝ))
      rw [hsum, List.length_map, mul_div_assoc]

/-- One call with gains on a session with scaled values. -/
theorem step_gain (g h : ℝ) (s : Session ℝ) (c : Call ℝ) :
    (Session.mk (s.pairing.map (g ^ 2 * ·)) (s.history.map (Frame.gain (g ^ 2) (h ^ 2)))).step
        (c.gain g h) =
      ⟨(s.step c).pairing.map (g ^ 2 * ·),
        (s.step c).history.map (Frame.gain (g ^ 2) (h ^ 2))⟩ := by
  cases c with
  | analyzeRenderAudio x =>
      simp only [Session.step, Call.gain, Call.event, Pairing.step, power_gain,
        Pairing.map_render]
  | analyzeCaptureAudio y =>
      simp only [Session.step, Call.gain, Call.event, Pairing.step, power_gain,
        Pairing.map_capture, Pairing.map_next]
      cases s.pairing.next <;> rfl
  | initializeDetector => rfl

/-- The session of the run with gains is the session of the run, with other values. -/
theorem session_gain (g h : ℝ) (calls : List (Call ℝ)) :
    Session.run (calls.map (Call.gain g h)) =
      ⟨(Session.run calls).pairing.map (g ^ 2 * ·),
        (Session.run calls).history.map (Frame.gain (g ^ 2) (h ^ 2))⟩ := by
  refine Machine.run_rel_map
    (fun (s t : Session ℝ) => t = ⟨s.pairing.map (g ^ 2 * ·),
      s.history.map (Frame.gain (g ^ 2) (h ^ 2))⟩) (Call.gain g h) ?_ rfl calls
  rintro s _ c rfl
  exact step_gain g h s c

theorem history_gain (g h : ℝ) (calls : List (Call ℝ)) :
    history (calls.map (Call.gain g h)) =
      (history calls).map (Frame.gain (g ^ 2) (h ^ 2)) := by
  rw [history_eq, session_gain, history_eq]

/-- The slot whose render values the estimator of a delay was last updated with. -/
def delaySlot (d : ResidualEchoDetector ℝ) (delay : Fin kLookbackFrames) :
    Fin kLookbackFrames :=
  ⟨Lookback.back kLookbackFrames d.nextInsertionIndex delay, Lookback.back_lt kLookbackFrames_pos⟩

theorem Tracks.delaySlot_stdDev {d : ResidualEchoDetector ℝ} {h : List (Frame ℝ)}
    (ht : d.Tracks h) (delay : Fin kLookbackFrames) :
    d.renderPowerStdDev[d.delaySlot delay] = History.renderStdDev (h.drop delay) :=
  ht.renderPowerStdDev.get delay.isLt _ rfl

/-- **Gain law**: the correlations of the run with gains, from the covariance and the two
deviations of the run without; and what the gains do to the reported likelihood. -/
theorem gain_law (calls : List (Call ℝ)) (g h : ℝ) :
    (∀ d : Fin kLookbackFrames,
      let S := g ^ 2 * h ^ 2
      let C := ((run calls).covariances.get d).covariance
      let sx := (run calls).captureStatistics.stdDeviation
      let sy := (run calls).renderPowerStdDev[(run calls).delaySlot d]
      ((run (calls.map (Call.gain g h))).covariances.get d).normalizedCrossCorrelation =
        S * C / (S * sx * sy + 0.0001)) ∧
    (1 ≤ |g * h| → (run calls).getMetrics.echoLikelihood ≤
      (run (calls.map (Call.gain g h))).getMetrics.echoLikelihood) ∧
    (|g * h| ≤ 1 → (run (calls.map (Call.gain g h))).getMetrics.echoLikelihood ≤
      (run calls).getMetrics.echoLikelihood) ∧
    (g * h = 0 →
      (run (calls.map (Call.gain g h))).getMetrics.echoLikelihood = 0) := by
  have ht := tracks_run calls
  have hS : g ^ 2 * h ^ 2 = (g * h) ^ 2 := by ring
  have hecho : (run (calls.map (Call.gain g h))).getMetrics.echoLikelihood =
      History.echoLikelihood ((history calls).map (Frame.gain (g ^ 2) (h ^ 2))) := by
    rw [getMetrics_run, history_gain]
    rfl
  have hplain : (run calls).getMetrics.echoLikelihood =
      History.echoLikelihood ((history calls).map (Frame.gain 1 1)) := by
    rw [getMetrics_run, History.gain_one]
    rfl
  refine ⟨?_, ?_, ?_, ?_⟩
  · -- the fields of both runs are functions of their histories
    intro d S C sx sy
    have hC : C = (History.covariance d (history calls)).covariance := by
      show ((run calls).covariances.get d).covariance = _
      rw [ht.get_covariances]
    have hsx : sx = (History.captureStats (history calls)).stdDeviation :=
      congrArg MeanVarianceEstimator.stdDeviation ht.captureStatistics
    have hsy : sy = History.renderStdDev ((history calls).drop d) := ht.delaySlot_stdDev d
    have hncc : ((run (calls.map (Call.gain g h))).covariances.get d).normalizedCrossCorrelation =
        History.correlation ((history calls).map (Frame.gain (g ^ 2) (h ^ 2))) d := by
      rw [(tracks_run _).get_covariances, history_gain]
      rfl
    have hreg : (0.0001 : ℝ) = 1 / 10000 := by norm_num
    rw [hncc, History.correlation_gain _ _ _ (sq_nonneg g) (sq_nonneg h), hC, hsx, hsy, hreg,
      mul_assoc S]
  · intro hlouder
    rw [hecho, hplain]
    apply History.echoLikelihood_gain_mono zero_le_one zero_le_one (sq_nonneg g) (sq_nonneg h)
    rw [hS, mul_one]
    exact (one_le_sq_iff_one_le_abs _).mpr hlouder
  · intro hsofter
    rw [hecho, hplain]
    apply History.echoLikelihood_gain_mono (sq_nonneg g) (sq_nonneg h) zero_le_one zero_le_one
    rw [hS, mul_one]
    exact (sq_le_one_iff_abs_le_one _).mpr hsofter
  · intro hsilent
    rw [hecho]
    apply History.echoLikelihood_gain_zero (sq_nonneg g) (sq_nonneg h)
    rw [hS, hsilent]
    exact zero_pow two_ne_zero

end ResidualEchoDetector

end AudioProc
