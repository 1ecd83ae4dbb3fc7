import AudioProc.DelayedEcho
import AudioProc.Gain

/-!
# Exact values of the likelihood

A covariance is bounded by the two deviations that it is divided by, so that a correlation
cannot be larger than `K / (K + 0.0001)` where the covariance is at most `K`
(`correlation_le`). At a delay where the covariance is as large as the deviations allow, it is
equal to that. This gives the likelihood itself, and not only a bound on it, in two cases:

* of an echo whose delay is one at which the render variance was at its largest;
* of frames that all have the same two powers (`constantFrames`), whatever the powers are.
-/

namespace AudioProc

open Ewma

theorem power_nonneg (x : List ℝ) : 0 ≤ power x := by
  have hfold : ∀ (acc : ℝ) (xs : List ℝ), 0 ≤ acc →
      0 ≤ xs.foldl (fun acc v => acc + v * v) acc := by
    intro acc xs hacc
    induction xs generalizing acc with
    | nil => exact hacc
    | cons v xs ih => exact ih _ (add_nonneg hacc (mul_self_nonneg v))
  cases x with
  | nil => exact le_rfl
  | cons v x => exact div_nonneg (hfold 0 (v :: x) le_rfl) (Nat.cast_nonneg _)

namespace History

/-! ## One large covariance -/

theorem abs_covariance_le (d : ℕ) (h : List (Frame ℝ)) :
    |(covariance d h).covariance| ≤ (captureStats h).stdDeviation * renderStdDev (h.drop d) := by
  rw [captureStdDev_real, renderStdDev_real,
    ← Real.sqrt_mul (sideStats_variance_nonneg Frame.capture h)]
  exact Real.abs_le_sqrt (covariance_sq_le d h)

theorem correlation_le {h : List (Frame ℝ)} {d : ℕ} {K : ℝ} (hK : 0 ≤ K)
    (hcov : (covariance d h).covariance ≤ K) : correlation h d ≤ K / (K + 1 / 10000) := by
  have hdev := abs_covariance_le d h
  have hdev₀ := (abs_nonneg _).trans hdev
  have hK₀ : 0 < K + 1 / 10000 := by linarith
  rw [correlation_eq]
  rcases le_or_gt (covariance d h).covariance 0 with hneg | hpos
  · -- nothing correlates
    have hquot : (covariance d h).covariance /
        ((captureStats h).stdDeviation * renderStdDev (h.drop d) + 1 / 10000) ≤ 0 :=
      div_nonpos_of_nonpos_of_nonneg hneg (by linarith)
    exact hquot.trans (div_nonneg hK hK₀.le)
  · rw [div_le_div_iff₀ (by linarith) hK₀]
    have hdev' := (le_abs_self _).trans hdev
    have hmul : (covariance d h).covariance * K ≤
        K * ((captureStats h).stdDeviation * renderStdDev (h.drop d)) := by
      rw [mul_comm]
      exact mul_le_mul_of_nonneg_left hdev' hK
    linarith

/-- The delay loop finds a correlation that no other delay exceeds. -/
theorem loopLikelihood_eq {h : List (Frame ℝ)} {d : ℕ} (hd : d < kLookbackFrames) {K : ℝ}
    (hK : 0 ≤ K) (hall : ∀ j < kLookbackFrames, (covariance j h).covariance ≤ K)
    (hat : correlation h d = K / (K + 1 / 10000)) : loopLikelihood h = K / (K + 1 / 10000) := by
  apply le_antisymm
  · apply runningMax_le
    · exact div_nonneg hK (by linarith)
    · intro j hj
      exact correlation_le hK (hall j hj)
  · rw [← hat]
    exact le_runningMax hd

theorem echoLikelihood_eq (h : List (Frame ℝ)) :
    echoLikelihood h = (1 - 0.999 ^ h.length) * loopLikelihood h := by
  have hrel : (1 - 0.999 ^ h.length : ℝ) = reliability h := by
    rw [reliability_eq]
    norm_num
  rw [hrel]
  cases h with
  | nil => exact (zero_mul _).symm
  | cons p h => rw [echoLikelihood_cons, mul_comm]

/-! ## Echoes -/

/-- The other delays of an echo. -/
theorem IsEcho.covariance_le {g : ℝ} (hg : 0 ≤ g) {d : ℕ} {h : List (Frame ℝ)}
    (he : IsEcho g d h) {W : ℝ} {j : ℕ} (hW : (sideStats Frame.render (h.drop j)).variance ≤ W) :
    (History.covariance j h).covariance ≤
      g * Real.sqrt ((sideStats Frame.render (h.drop d)).variance * W) := by
  have hV := sideStats_variance_nonneg Frame.render (h.drop d)
  have hsq := covariance_sq_le j h
  rw [he.captureStats_variance] at hsq
  calc (History.covariance j h).covariance
      ≤ Real.sqrt (g ^ 2 * (sideStats Frame.render (h.drop d)).variance *
          (sideStats Frame.render (h.drop j)).variance) :=
        (le_abs_self _).trans (Real.abs_le_sqrt hsq)
    _ ≤ Real.sqrt (g ^ 2 * ((sideStats Frame.render (h.drop d)).variance * W)) := by
        apply Real.sqrt_le_sqrt
        rw [mul_assoc]
        gcongr
    _ = g * Real.sqrt ((sideStats Frame.render (h.drop d)).variance * W) := by
        rw [Real.sqrt_mul (sq_nonneg g), Real.sqrt_sq hg]

/-- The loop likelihood of an echo is between these two, which are equal when no delay has a
larger render variance than that of the echo. -/
theorem IsEcho.loopLikelihood_le {g : ℝ} (hg : 0 ≤ g) {d : ℕ} {h : List (Frame ℝ)}
    (he : IsEcho g d h) {W : ℝ}
    (hW : ∀ j < kLookbackFrames, (sideStats Frame.render (h.drop j)).variance ≤ W) :
    loopLikelihood h ≤ g * Real.sqrt ((sideStats Frame.render (h.drop d)).variance * W) /
      (g * Real.sqrt ((sideStats Frame.render (h.drop d)).variance * W) + 1 / 10000) := by
  have hK : 0 ≤ g * Real.sqrt ((sideStats Frame.render (h.drop d)).variance * W) :=
    mul_nonneg hg (Real.sqrt_nonneg _)
  apply runningMax_le
  · exact div_nonneg hK (by linarith)
  · intro j hj
    exact correlation_le hK (he.covariance_le hg (hW j hj))

theorem IsEcho.loopLikelihood_eq {g : ℝ} (hg : 0 ≤ g) {d : ℕ} (hd : d < kLookbackFrames)
    {h : List (Frame ℝ)} (he : IsEcho g d h)
    (hlargest : ∀ j < kLookbackFrames, (sideStats Frame.render (h.drop j)).variance ≤
      (sideStats Frame.render (h.drop d)).variance) :
    loopLikelihood h = g * (sideStats Frame.render (h.drop d)).variance /
      (g * (sideStats Frame.render (h.drop d)).variance + 1 / 10000) := by
  have hV := sideStats_variance_nonneg Frame.render (h.drop d)
  refine History.loopLikelihood_eq hd (mul_nonneg hg hV) ?_ (he.correlation hg)
  intro j hj
  have hcov := he.covariance_le hg (hlargest j hj)
  rwa [Real.sqrt_mul_self hV] at hcov

/-! ## Frames that are all the same -/

/-- The covariance at delay 0 of `n` frames with powers `r` and `c`. -/
noncomputable def constantCovariance (r c : ℝ) (n : ℕ) : ℝ :=
  c * r * 0.999 ^ (n + 1) * (1 - 0.999 ^ n)

theorem constantCovariance_nonneg {r c : ℝ} (hr : 0 ≤ r) (hc : 0 ≤ c) (n : ℕ) :
    0 ≤ constantCovariance r c n := by
  have hpow : (0.999 : ℝ) ^ n ≤ 1 := pow_le_one₀ (by norm_num) (by norm_num)
  have hgap : 0 ≤ 1 - (0.999 : ℝ) ^ n := by linarith
  unfold constantCovariance
  positivity

theorem powerAt_replicate (side : Frame ℝ → ℝ) (p : Frame ℝ) {n k : ℕ} (hk : 1 ≤ k)
    (hkn : k ≤ n) : powerAt side (List.replicate n p) k = side p := by
  induction n with
  | zero => omega
  | succ n ih =>
      rw [List.replicate_succ]
      rcases Nat.lt_or_ge n k with hlast | hold
      · obtain rfl : k = (List.replicate n p).length + 1 := by
          rw [List.length_replicate]
          omega
        exact powerAt_last side p _
      · rw [powerAt_cons side p (by rwa [List.length_replicate]), ih hold]

/-- The covariance at delay `d`: before `d` frames were processed, there is none. -/
theorem covariance_replicate (r c : ℝ) (n d : ℕ) :
    (covariance d (List.replicate n ⟨r, c⟩)).covariance =
      c * r * 0.999 ^ (n + 1) * (1 - 0.999 ^ (n - d)) := by
  have hcapture : ∀ k, 1 ≤ k → k ≤ n →
      capturePowerAt (List.replicate n ⟨r, c⟩) k = c * (fun _ => 1) k := by
    intro k hk hkn
    rw [mul_one]
    exact powerAt_replicate Frame.capture _ hk hkn
  -- the render power as it was `d` frames ago
  let late : ℕ → ℝ := fun k => if k = 0 then 0 else 1
  have hrender : ∀ k, 1 ≤ k → k ≤ n →
      renderPowerAt (List.replicate n ⟨r, c⟩) (k - d) = r * (fun k => late (k - d)) k := by
    intro k hk hkn
    show _ = r * (if k - d = 0 then 0 else 1)
    split_ifs with hzero
    · rw [hzero, mul_zero]
      exact powerAt_zero Frame.render _
    · rw [mul_one]
      exact powerAt_replicate Frame.render _ (Nat.pos_of_ne_zero hzero) (by omega)
  have hlate : ∀ m, ewSum (1 / 1000) (999 / 1000) late m = 1 - (999 / 1000 : ℝ) ^ m := by
    intro m
    have hone : ∀ k, 1 ≤ k → k ≤ m → late k = (fun _ => (1 : ℝ)) k := by
      intro k hk _
      exact if_neg (Nat.ne_of_gt hk)
    rw [ewSum_congr _ _ hone, ewSum_const _ _ (by norm_num), mul_one]
  have hq : (0.999 : ℝ) = 999 / 1000 := by norm_num
  rw [covariance_eq, List.length_replicate, ewCov_congr _ _ hcapture hrender, ewCov_smul, ewCov,
    ewSum_const _ _ (by norm_num), ewSum_delay (v := late) _ _ rfl, hlate, hq]
  simp only [one_mul]
  rw [ewSum_delay (v := late) _ _ rfl, hlate, pow_succ]
  ring

theorem variance_replicate (side : Frame ℝ → ℝ) (p : Frame ℝ) (n : ℕ) :
    (sideStats side (List.replicate n p)).variance =
      side p ^ 2 * (0.999 ^ (n + 1) * (1 - 0.999 ^ n)) := by
  have hconst : ∀ k, 1 ≤ k → k ≤ n →
      powerAt side (List.replicate n p) k = side p * (fun _ => 1) k := by
    intro k hk hkn
    rw [mul_one]
    exact powerAt_replicate side p hk hkn
  have hq : (0.999 : ℝ) = 999 / 1000 := by norm_num
  rw [sideStats_variance_eq, List.length_replicate, ewCov_congr _ _ hconst hconst, ewCov_smul,
    ewCov, ewSum_const _ _ (by norm_num), hq]
  simp only [one_mul]
  rw [ewSum_const _ _ (by norm_num), pow_succ]
  ring

theorem loopLikelihood_replicate {r c : ℝ} (hr : 0 ≤ r) (hc : 0 ≤ c) (n : ℕ) :
    loopLikelihood (List.replicate n ⟨r, c⟩) =
      constantCovariance r c n / (constantCovariance r c n + 1 / 10000) := by
  have hpow : ∀ k : ℕ, (0.999 : ℝ) ^ k ≤ 1 := fun k =>
    pow_le_one₀ (by norm_num) (by norm_num)
  have hweight : 0 ≤ (0.999 : ℝ) ^ (n + 1) * (1 - 0.999 ^ n) :=
    mul_nonneg (by positivity) (by linarith [hpow n])
  refine loopLikelihood_eq (d := 0) (by decide) (constantCovariance_nonneg hr hc n) ?_ ?_
  · -- a later start leaves less of the same covariance
    intro j _
    have hfewer : (0.999 : ℝ) ^ n ≤ 0.999 ^ (n - j) :=
      pow_le_pow_of_le_one (by norm_num) (by norm_num) (Nat.sub_le n j)
    have hfactor : 0 ≤ c * r * (0.999 : ℝ) ^ (n + 1) := by positivity
    rw [covariance_replicate]
    exact mul_le_mul_of_nonneg_left (by linarith) hfactor
  · have hsigma : Real.sqrt (c ^ 2 * (0.999 ^ (n + 1) * (1 - 0.999 ^ n))) *
        Real.sqrt (r ^ 2 * (0.999 ^ (n + 1) * (1 - 0.999 ^ n))) = constantCovariance r c n := by
      rw [Real.sqrt_mul (sq_nonneg c), Real.sqrt_mul (sq_nonneg r), Real.sqrt_sq hc,
        Real.sqrt_sq hr, mul_mul_mul_comm, Real.mul_self_sqrt hweight]
      unfold constantCovariance
      ring
    rw [correlation_eq, covariance_replicate, captureStdDev_real, renderStdDev_real, List.drop_zero,
      variance_replicate, variance_replicate]
    show c * r * 0.999 ^ (n + 1) * (1 - 0.999 ^ (n - 0)) / (Real.sqrt _ * Real.sqrt _ + _) = _
    rw [hsigma]
    rfl

/-- The likelihood after `n` frames with powers `r` and `c`. -/
noncomputable def constantLikelihood (r c : ℝ) (n : ℕ) : ℝ :=
  (1 - 0.999 ^ n) * (constantCovariance r c n / (constantCovariance r c n + 0.0001))

theorem echoLikelihood_replicate {r c : ℝ} (hr : 0 ≤ r) (hc : 0 ≤ c) (n : ℕ) :
    echoLikelihood (List.replicate n ⟨r, c⟩) = constantLikelihood r c n := by
  have hreg : (0.0001 : ℝ) = 1 / 10000 := by norm_num
  rw [echoLikelihood_eq, loopLikelihood_replicate hr hc, List.length_replicate, constantLikelihood,
    hreg]

theorem recentMax_replicate {r c : ℝ} (hr : 0 ≤ r) (hc : 0 ≤ c) (n : ℕ) :
    recentMax (List.replicate n ⟨r, c⟩) =
      Machine.run MovingMax.update (.new kAggregationBufferSize kAggregationBufferSize_pos)
        ((List.range n).map fun k => constantLikelihood r c (k + 1)) := by
  induction n with
  | zero => rfl
  | succ n ih =>
      rw [List.replicate_succ, recentMax, ih, List.range_succ, List.map_append, List.map_singleton,
        Machine.run_concat, ← List.replicate_succ, echoLikelihood_replicate hr hc]

end History

namespace ResidualEchoDetector

/-- The render deviation that the estimator of a delay was last updated with. -/
theorem renderPowerStdDev_sq (calls : List (Call ℝ)) (d : Fin kLookbackFrames) :
    (run calls).renderPowerStdDev.get ((run calls).delaySlot d) ^ 2 =
      (History.sideStats Frame.render ((history calls).drop d)).variance := by
  have hslot := (tracks_run calls).delaySlot_stdDev d
  rw [History.renderStdDev_real] at hslot
  have hget : (run calls).renderPowerStdDev.get ((run calls).delaySlot d) = _ := hslot
  rw [hget]
  exact Real.sq_sqrt (History.sideStats_variance_nonneg _ _)

/-- **An echo is reported exactly** where its delay is one of the largest render variance: with
the capture powers of a run `g` times the render powers of `d` frames earlier, and `V j` the
render variance that the estimator of delay `j` was last updated with, the likelihood of `n`
processed frames is `(1 - 0.999 ^ n) * (g V / (g V + 0.0001))` with `V = V d` if no `V j` is larger.
In general, it is at most that with `V = √(V d * W)` when all `V j` are at most `W`. -/
theorem echo_likelihood_exact (calls : List (Call ℝ)) {g : ℝ} (hg : 0 ≤ g)
    (d : Fin kLookbackFrames) (hecho : History.IsEcho g d (history calls)) {W : ℝ}
    (hW : ∀ j : Fin kLookbackFrames,
      (run calls).renderPowerStdDev.get ((run calls).delaySlot j) ^ 2 ≤ W) :
    let n := (history calls).length
    let V := (run calls).renderPowerStdDev.get ((run calls).delaySlot d) ^ 2
    (run calls).getMetrics.echoLikelihood ≤ (1 - 0.999 ^ n) *
      (g * Real.sqrt (V * W) / (g * Real.sqrt (V * W) + 0.0001)) ∧
    (W = V → (run calls).getMetrics.echoLikelihood =
      (1 - 0.999 ^ n) * (g * V / (g * V + 0.0001))) := by
  intro n V
  have hV : V = (History.sideStats Frame.render ((history calls).drop d)).variance :=
    renderPowerStdDev_sq calls d
  have hW' : ∀ j < kLookbackFrames,
      (History.sideStats Frame.render ((history calls).drop j)).variance ≤ W := by
    intro j hj
    have hslot := hW ⟨j, hj⟩
    rwa [renderPowerStdDev_sq] at hslot
  have hreg : (0.0001 : ℝ) = 1 / 10000 := by norm_num
  have hrel : (0 : ℝ) ≤ 1 - 0.999 ^ n := by
    have hpow : (0.999 : ℝ) ^ n ≤ 1 := pow_le_one₀ (by norm_num) (by norm_num)
    linarith
  have hlikelihood : (run calls).getMetrics.echoLikelihood =
      (1 - 0.999 ^ n) * History.loopLikelihood (history calls) := by
    rw [getMetrics_run]
    exact History.echoLikelihood_eq _
  rw [hlikelihood, hreg, hV]
  constructor
  · exact mul_le_mul_of_nonneg_left (hecho.loopLikelihood_le hg hW') hrel
  · intro hlargest
    rw [hlargest] at hW'
    rw [hecho.loopLikelihood_eq hg d.isLt hW']

/-- One frame that is on both sides at once. -/
theorem echo_likelihood_exact_same :
    let calls : List (Call ℝ) :=
      [.analyzeCaptureAudio [], .analyzeRenderAudio [1], .analyzeCaptureAudio [1]]
    let V := (run calls).renderPowerStdDev.get
      ((run calls).delaySlot ⟨0, kLookbackFrames_pos⟩) ^ 2
    (run calls).getMetrics.echoLikelihood = (1 - 0.999 ^ 1) * (1 * V / (1 * V + 0.0001)) := by
  intro calls V
  have hhist : history calls = [⟨power [1], power [1]⟩] := by
    rw [history_eq]
    rfl
  have hlength : (history calls).length = 1 := by rw [hhist]; rfl
  have hecho : History.IsEcho 1 ((⟨0, kLookbackFrames_pos⟩ : Fin kLookbackFrames) : ℕ)
      (history calls) := by
    rw [hhist]
    intro k hk hk1
    obtain rfl : k = 1 := le_antisymm hk1 hk
    simp [History.capturePowerAt, History.renderPowerAt, History.powerAt]
  -- before the only frame nothing was rendered
  have hlargest : ∀ j : Fin kLookbackFrames,
      (run calls).renderPowerStdDev.get ((run calls).delaySlot j) ^ 2 ≤ V := by
    intro j
    rcases j with ⟨_ | j, hj⟩
    · exact le_rfl
    · rw [renderPowerStdDev_sq, hhist]
      have hnone : List.drop (j + 1) [(⟨power [1], power [1]⟩ : Frame ℝ)] = [] :=
        List.drop_of_length_le (Nat.succ_le_succ (Nat.zero_le j))
      rw [hnone]
      exact sq_nonneg _
  have hexact := (echo_likelihood_exact calls zero_le_one _ hecho hlargest).2 rfl
  rwa [hlength] at hexact

end ResidualEchoDetector

end AudioProc
