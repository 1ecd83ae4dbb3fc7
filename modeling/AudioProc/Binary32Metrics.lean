import AudioProc.Binary32Arithmetic
import AudioProc.ReportFiles

/-!
# The metrics in binary32

What the detector reports, read in the arithmetic of the program itself. The samples may be
anything, infinities and NaN included: the delay loop starts from 0 and takes over only what is
larger, which a NaN never is, and the cap at 1 takes care of the rest. So the reported values
are always numbers, from 0 to 1.

The reliability is rounded twice at every frame. The errors do not add up, because each frame
takes a thousandth of what there is away, and 1 is never passed.

* `reliability_unit`, `echoLikelihood_unit`, `recentMax_unit`: numbers from 0 to 1;
* `reliability_near`: the distance from what exact arithmetic gives.
-/

namespace AudioProc

open FloatOps Binary32

/-- A number from 0 to 1. -/
def UnitValue (x : Float32) : Prop := ∃ a, value x = some a ∧ 0 ≤ a ∧ a ≤ 1

/-! ## The constants -/

/-- The factor of the old value. -/
def decayFactor : Float32 := 1 - ResidualEchoDetector.kAlpha

def decayRat : ℚ := 16760439 * 2 ^ (-24 : ℤ)

def alphaRat : ℚ := 8589935 * 2 ^ (-33 : ℤ)

theorem value_decayFactor : value decayFactor = some decayRat := rfl

theorem value_kAlpha : value (ResidualEchoDetector.kAlpha : Float32) = some alphaRat := rfl

theorem value_kAlpha_mul_one :
    value ((ResidualEchoDetector.kAlpha : Float32) * One.one) = some alphaRat := rfl

theorem value_hundred : value (FloatOps.ofInt 100 : Float32) = some 100 := by
  have hhundred : value (FloatOps.ofInt 100 : Float32) = some ((100 : ℤ) : ℚ) :=
    value_ofInt (by decide)
  rw [hhundred]
  norm_num

theorem value_kDecayFactor : ∃ k, value (MovingMax.kDecayFactor : Float32) = some k ∧
    0 ≤ k ∧ k ≤ 1 := by
  refine ⟨16609444 * 2 ^ (-24 : ℤ), rfl, ?_, ?_⟩ <;> norm_num

/-! ## Operations on numbers from 0 to 1 -/

section

variable {x y : Float32} {a b u : ℚ}

theorem mul_between (ha : value x = some a) (hb : value y = some b) (hb₀ : 0 ≤ b) (ha₀ : 0 ≤ a)
    (ha₁ : a ≤ 1) :
    ∃ c, value (x * y) = some c ∧ Nearest points (a * b) c ∧ 0 ≤ c ∧ c ≤ b := by
  have hbound := abs_lt.mp (abs_value_lt hb)
  exact (rounds_mul ha hb).between zero_mem_grid (value_mem_points hb) (mul_nonneg ha₀ hb₀)
    (mul_le_of_le_one_left hb₀ ha₁) (by norm_num) hbound.2

theorem UnitValue.stdMin (hx : (∃ a, value x = some a ∧ 0 ≤ a) ∨
    x.toModel.unpack = .infinity .positive) : UnitValue (stdMin x One.one) := by
  unfold FloatOps.stdMin
  rcases hx with ⟨a, ha, ha₀⟩ | hinf
  · have hlt := lt_iff_value value_one ha
    split_ifs with hcap
    · exact ⟨1, value_one, zero_le_one, le_rfl⟩
    · exact ⟨a, ha, ha₀, not_lt.mp (mt hlt.mpr hcap)⟩
  · rw [if_pos ((lt_infinity value_one).1 hinf)]
    exact ⟨1, value_one, zero_le_one, le_rfl⟩

end

/-! ## The reliability -/

theorem one_mem_points : (1 : ℚ) ∈ points := by
  have hmem : (2 : ℚ) ^ (0 : ℤ) ∈ points := two_zpow_mem_grid (by decide) (by decide)
  rwa [zpow_zero] at hmem

/-- What rounding leaves of a number that is hardly above 1 is not above 1. -/
theorem nearest_le_one {x y : ℚ} (h : Nearest points x y) (hx : x ≤ 1 + 2 ^ (-25 : ℤ)) :
    y ≤ 1 := by
  have hone := one_mem_points
  rcases le_or_gt x 1 with hle | hgt
  · exact h.le hone hle
  · by_contra habove
    have hgap := @grid_gap 24 _ (-23) y (by decide) h.mem (by norm_num; linarith)
    norm_num at hgap hx
    have herror := h.error_le hone
    rw [abs_of_nonneg (by linarith), abs_of_neg (by linarith)] at herror
    linarith

/-- The error of rounding from 0 to 1. -/
theorem nearest_unit_error {x y : ℚ} (h : Nearest points x y) (h₀ : 0 ≤ x)
    (hx : x ≤ 1 + 2 ^ (-25 : ℤ)) : 2 * |y - x| ≤ 2 ^ (-24 : ℤ) := by
  rcases le_or_gt x 1 with hle | hgt
  · apply nearest_error h (by decide) (by decide) h₀
    have hfull : (2 : ℚ) ^ 24 * 2 ^ (-24 : ℤ) = 1 := by norm_num
    exact hle.trans_eq hfull.symm
  · have herror := h.error_le one_mem_points
    rw [abs_of_neg (sub_neg.mpr hgt)] at herror
    norm_num at hx ⊢
    linarith

/-- **One frame** in binary32: two roundings, and still at most 1. -/
theorem reliability_step {x : Float32} {a : ℚ} (ha : value x = some a) (ha₀ : 0 ≤ a)
    (ha₁ : a ≤ 1) :
    ∃ b c, value (decayFactor * x + ResidualEchoDetector.kAlpha * One.one) = some c ∧
      Nearest points (decayRat * a) b ∧ Nearest points (b + alphaRat) c ∧
      0 ≤ b ∧ b ≤ decayRat ∧ alphaRat ≤ c ∧ c ≤ 1 := by
  have hdecay : 0 ≤ decayRat ∧ decayRat ≤ 1 := by
    unfold decayRat
    norm_num
  have halpha : 0 ≤ alphaRat ∧ decayRat + alphaRat ≤ 1 + 2 ^ (-25 : ℤ) := by
    unfold decayRat alphaRat
    norm_num
  have hdecayMem : decayRat ∈ points := value_mem_points value_decayFactor
  have halphaMem : alphaRat ∈ points := value_mem_points value_kAlpha
  rcases (rounds_mul value_decayFactor ha).between zero_mem_grid hdecayMem
    (mul_nonneg hdecay.1 ha₀) (mul_le_of_le_one_right hdecay.1 ha₁) (by norm_num)
    (by linarith [hdecay.2]) with ⟨b, hb, hnear, hb₀, hb₁⟩
  have htwo : (2 : ℚ) ∈ points := by
    have hmem : (2 : ℚ) ^ (1 : ℤ) ∈ points := two_zpow_mem_grid (by decide) (by decide)
    rwa [zpow_one] at hmem
  have hsmall : decayRat + alphaRat ≤ 2 := by
    unfold decayRat alphaRat
    norm_num
  rcases (rounds_add hb value_kAlpha_mul_one).between halphaMem htwo (by linarith) (by linarith)
    (by linarith [halpha.1]) (by norm_num) with ⟨c, hc, hnear', hc₀, -⟩
  have hc₁ : c ≤ 1 := nearest_le_one hnear' (by linarith [halpha.2])
  exact ⟨b, c, hc, hnear, hnear', hb₀, hb₁, hc₀, hc₁⟩

namespace History

theorem reliability_cons (p : Frame Float32) (h : List (Frame Float32)) :
    reliability (p :: h) = decayFactor * reliability h + ResidualEchoDetector.kAlpha * One.one :=
  rfl

/-- **The reliability** is a number from 0 to 1, and not 0 behind the first frame. -/
theorem reliability_unit (h : List (Frame Float32)) :
    ∃ a, value (reliability h) = some a ∧ 0 ≤ a ∧ a ≤ 1 ∧ (h ≠ [] → 0 < a) := by
  induction h with
  | nil => exact ⟨0, value_zero, le_rfl, zero_le_one, fun hne => absurd rfl hne⟩
  | cons p h ih =>
      rcases ih with ⟨a, ha, ha₀, ha₁, -⟩
      rcases reliability_step ha ha₀ ha₁ with ⟨b, c, hc, -, -, -, -, hlow, hhigh⟩
      have hpos : 0 < alphaRat := by
        unfold alphaRat
        norm_num
      rw [reliability_cons]
      exact ⟨c, hc, hpos.le.trans hlow, hhigh, fun _ => hpos.trans_le hlow⟩

/-- What the two roundings and the two constants add to the distance. -/
theorem reliability_error_step {a b c s : ℚ} (ha₀ : 0 ≤ a) (ha₁ : a ≤ 1)
    (hb : Nearest points (decayRat * a) b) (hc : Nearest points (b + alphaRat) c)
    (hb₀ : 0 ≤ b) (hb₁ : b ≤ decayRat) (hdist : |a - s| ≤ 1 / 10000) :
    |c - (999 / 1000 * s + 1 / 1000)| ≤ 1 / 10000 := by
  have hfirst := nearest_unit_error hb (by unfold decayRat; positivity) (by
    unfold decayRat
    norm_num
    linarith)
  have hsecond := nearest_unit_error hc (by unfold alphaRat; positivity) (by
    unfold decayRat at hb₁
    unfold alphaRat
    norm_num at hb₁ ⊢
    linarith)
  rw [abs_le] at hdist ⊢
  have hfirst' := abs_le.mp ((le_div_iff₀' two_pos).mpr hfirst)
  have hsecond' := abs_le.mp ((le_div_iff₀' two_pos).mpr hsecond)
  unfold decayRat at hfirst'
  unfold alphaRat at hsecond'
  norm_num at hfirst' hsecond'
  constructor <;> linarith [hdist.1, hdist.2, hfirst'.1, hfirst'.2, hsecond'.1, hsecond'.2]

/-- **The reliability stays near** to what it is in exact arithmetic, however many frames there
are. -/
theorem reliability_near (h : List (Frame Float32)) :
    ∃ a, value (reliability h) = some a ∧ |a - (1 - (999 / 1000) ^ h.length)| ≤ 1 / 10000 := by
  induction h with
  | nil =>
      refine ⟨0, value_zero, ?_⟩
      norm_num
  | cons p h ih =>
      rcases ih with ⟨a, ha, hdist⟩
      rcases reliability_unit h with ⟨a', ha', ha₀, ha₁, -⟩
      rcases Option.some.inj (ha.symm.trans ha') with rfl
      rcases reliability_step ha ha₀ ha₁ with ⟨b, c, hc, hfirst, hsecond, hb₀, hb₁, -, -⟩
      have hnext := reliability_error_step ha₀ ha₁ hfirst hsecond hb₀ hb₁ hdist
      have hexact : (1 : ℚ) - (999 / 1000) ^ (p :: h).length =
          999 / 1000 * (1 - (999 / 1000) ^ h.length) + 1 / 1000 := by
        rw [List.length_cons, pow_succ]
        ring
      rw [hexact]
      exact ⟨c, hc, hnext⟩

/-! ## The likelihood and its recent maximum -/

/-- The delay loop leaves a number that is not negative, or the positive infinity. -/
theorem loopLikelihood_cases (h : List (Frame Float32)) :
    (∃ a, value (loopLikelihood h) = some a ∧ 0 ≤ a) ∨
      (loopLikelihood h).toModel.unpack = .infinity .positive := by
  rcases runningArg_cases Zero.zero (correlation h) kLookbackFrames with
    ⟨-, hzero⟩ | ⟨d, -, -, hvalue, hpos, -⟩
  · left
    exact ⟨0, (congrArg value hzero).trans value_zero, le_rfl⟩
  · have hloop : loopLikelihood h = correlation h d := hvalue
    rw [hloop]
    rcases above_cases value_zero hpos with ⟨b, hb, hb₀⟩ | hinf
    · exact Or.inl ⟨b, hb, hb₀.le⟩
    · exact Or.inr hinf

/-- **The likelihood** is a number from 0 to 1, whatever the frames were. -/
theorem echoLikelihood_unit (h : List (Frame Float32)) : UnitValue (echoLikelihood h) := by
  cases h with
  | nil => exact ⟨0, value_zero, le_rfl, zero_le_one⟩
  | cons p h =>
      rcases reliability_unit (p :: h) with ⟨r, hr, hr₀, hr₁, hpos⟩
      apply UnitValue.stdMin
      rcases loopLikelihood_cases (p :: h) with ⟨a, ha, ha₀⟩ | hinf
      · left
        have hbound := abs_lt.mp (abs_value_lt ha)
        rcases (rounds_mul ha hr).between zero_mem_grid (value_mem_points ha) (mul_nonneg ha₀ hr₀)
          (mul_le_of_le_one_right ha₀ hr₁) (by norm_num) hbound.2 with ⟨c, hc, -, hc₀, -⟩
        exact ⟨c, hc, hc₀⟩
      · right
        exact mul_infinity hinf hr (hpos (List.cons_ne_nil p h))

theorem age_unit {m : MovingMax Float32} (h : UnitValue m.max) : UnitValue m.age.max := by
  unfold MovingMax.age
  split_ifs with hold
  · rcases h with ⟨a, ha, ha₀, ha₁⟩
    rcases value_kDecayFactor with ⟨k, hk, hk₀, hk₁⟩
    rcases mul_between ha hk hk₀ ha₀ ha₁ with ⟨c, hc, -, hc₀, hck⟩
    exact ⟨c, hc, hc₀, hck.trans hk₁⟩
  · exact h

/-- **The recent maximum** is a number to 1, and not below the likelihood. -/
theorem recentMax_unit (h : List (Frame Float32)) :
    ∃ e m, value (echoLikelihood h) = some e ∧ value (recentMax h).max = some m ∧
      0 ≤ e ∧ e ≤ m ∧ m ≤ 1 := by
  induction h with
  | nil => exact ⟨0, 0, value_zero, value_zero, le_rfl, le_rfl, zero_le_one⟩
  | cons p h ih =>
      rcases ih with ⟨e, m, -, hm, he₀, hem, hm₁⟩
      rcases age_unit ⟨m, hm, he₀.trans hem, hm₁⟩ with ⟨m', hm', -, hm'₁⟩
      rcases echoLikelihood_unit (p :: h) with ⟨e', he', he'₀, he'₁⟩
      have hlt := lt_iff_value hm' he'
      have hupdate : (recentMax (p :: h)).max =
          if (recentMax h).age.max < echoLikelihood (p :: h) then echoLikelihood (p :: h)
          else (recentMax h).age.max := by
        exact apply_ite MovingMax.maxValue _ _ _
      rw [hupdate]
      split_ifs with hraise
      · exact ⟨e', e', he', he', he'₀, le_rfl, he'₁⟩
      · exact ⟨e', m', he', hm', he'₀, not_lt.mp (mt hlt.mpr hraise), hm'₁⟩

/-- **The percentage** of a likelihood is from 0 to 100. -/
theorem percentage_bounds (h : List (Frame Float32)) :
    0 ≤ truncate (echoLikelihood h * ofInt 100) ∧
      truncate (echoLikelihood h * ofInt 100) ≤ 100 := by
  rcases echoLikelihood_unit h with ⟨a, ha, ha₀, ha₁⟩
  rcases mul_between ha value_hundred (by norm_num) ha₀ ha₁ with ⟨c, hc, -, hc₀, hc₁⟩
  have hsmall : |c| < 2 ^ 31 := by
    rw [abs_of_nonneg hc₀]
    exact hc₁.trans_lt (by norm_num)
  have htruncate : truncate (echoLikelihood h * ofInt 100) = ⌊c⌋ :=
    (toInt32_eq hc hsmall).trans (if_pos hc₀)
  rw [htruncate]
  constructor
  · exact Int.floor_nonneg.mpr hc₀
  · have hless : ⌊c⌋ < 101 := Int.floor_lt.mpr (by push_cast; linarith)
    omega

end History

namespace ResidualEchoDetector

/-- Every likelihood reported is the one of some history. -/
theorem exists_history (calls : List (Call Float32)) :
    ∀ x ∈ likelihoods calls, ∃ h, x = History.echoLikelihood h := by
  induction calls using List.reverseRecOn with
  | nil =>
      intro x hx
      exact absurd hx List.not_mem_nil
  | append_singleton calls c ih =>
      intro x hx
      rw [likelihoods_concat, List.mem_append, Option.mem_toList] at hx
      rcases hx with hold | hnew
      · exact ih x hold
      · have ht : (run (calls ++ [c])).Tracks (history (calls ++ [c])) := tracks_run _
        cases c with
        | analyzeRenderAudio r => exact absurd hnew (Option.not_mem_none x)
        | analyzeCaptureAudio y =>
            rw [reported, Option.map_eq_some_iff] at hnew
            rcases hnew with ⟨r, -, hx⟩
            refine ⟨history (calls ++ [.analyzeCaptureAudio y]), ?_⟩
            rw [← ht.echoLikelihood, run_concat, step, hx]
        | initializeDetector => exact absurd hnew (Option.not_mem_none x)

/-- In binary32 the buckets are the percentages: the range of the histogram cuts nothing off. -/
theorem buckets_binary32 (calls : List (Call Float32)) :
    buckets calls = (likelihoods calls).map fun x => truncate (x * ofInt 100) := by
  apply List.map_congr_left
  intro x hx
  rcases exists_history calls x hx with ⟨h, rfl⟩
  have hbounds := History.percentage_bounds h
  unfold RtcHistogram.clampTo
  omega

/-- **The metrics of the program**: after every run in binary32, whatever the samples were, the
likelihood and its recent maximum are numbers, in order and from 0 to 1, and so is the
reliability. The percentages are from 0 to 100, and the histogram counts all of them. -/
theorem binary32_metrics (calls : List (Call Float32))
    (hsmall : (likelihoods calls).length < 2 ^ 31) :
    (∃ e m, value (run calls).getMetrics.echoLikelihood = some e ∧
      value (run calls).getMetrics.echoLikelihoodRecentMax = some m ∧ 0 ≤ e ∧ e ≤ m ∧ m ≤ 1) ∧
    (∃ r, value (run calls).reliability = some r ∧ 0 ≤ r ∧ r ≤ 1) ∧
    (∀ x ∈ likelihoods calls, UnitValue x ∧
      0 ≤ truncate (x * ofInt 100) ∧ truncate (x * ofInt 100) ≤ 100) ∧
    ∀ b, (run calls).echoLikelihoodHistogram.numEvents b =
      ((likelihoods calls).map fun x => truncate (x * ofInt 100)).count b := by
  have ht : (run calls).Tracks (history calls) := tracks_run calls
  refine ⟨?_, ?_, ?_, ?_⟩
  · rw [ht.getMetrics]
    exact History.recentMax_unit _
  · rcases History.reliability_unit (history calls) with ⟨r, hr, hr₀, hr₁, -⟩
    rw [ht.reliability]
    exact ⟨r, hr, hr₀, hr₁⟩
  · intro x hx
    rcases exists_history calls x hx with ⟨h, rfl⟩
    exact ⟨History.echoLikelihood_unit h, History.percentage_bounds h⟩
  · intro b
    rw [numEvents_run calls hsmall, buckets_binary32]

/-- A frame of NaN on both sides. -/
theorem binary32_metrics_nan :
    let nan : Float32 := Float32.ofBits 0x7fc00000
    let calls : List (Call Float32) :=
      [.analyzeCaptureAudio [nan], .analyzeRenderAudio [nan], .analyzeCaptureAudio [nan]]
    ∃ r, value (run calls).reliability = some r ∧ 0 ≤ r ∧ r ≤ 1 := by
  intro nan calls
  have hsmall : (likelihoods calls).length < 2 ^ 31 :=
    (length_likelihoods_le calls).trans_lt (by decide)
  exact (binary32_metrics calls hsmall).2.1

/-- **The reliability of the program**: after every run it is within a ten-thousandth of what
exact arithmetic gives for the number of frames processed since the last `Initialize`. -/
theorem binary32_reliability (calls : List (Call Float32)) :
    ∃ r, value (run calls).reliability = some r ∧
      |r - (1 - (999 / 1000) ^ (history calls).length)| ≤ 1 / 10000 := by
  have ht : (run calls).Tracks (history calls) := tracks_run calls
  rw [ht.reliability]
  exact History.reliability_near _

end ResidualEchoDetector

end AudioProc
