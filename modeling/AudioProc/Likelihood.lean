import AudioProc.Correlation

/-!
# The reported likelihood, its recent maximum and the histogram

With the correlations below 1 (`Correlation`), everything the detector reports after `n`
frames stays below its reliability `1 - 0.999 ^ n`:

* the likelihood is the largest correlation times the reliability, and the cap at 1 never
  cuts it;
* the recent maximum is a decaying maximum of likelihoods, each at most a reliability, and
  the reliability only grows;
* the percentage put into the histogram is therefore in 0..99.

`Counts` is the invariant of the histogram over the whole life of a detector: `Initialize`
restarts the first two but not the histogram.
-/

namespace AudioProc

open FloatOps

universe u

namespace ResidualEchoDetector

theorem kAlpha_real : (kAlpha : ℝ) = 1 / 1000 := by
  show (0.001 : ℝ) = 1 / 1000
  norm_num

end ResidualEchoDetector

namespace History

/-! ## The likelihood and the reliability -/

theorem reliability_eq (h : List (Frame ℝ)) :
    reliability h = 1 - (999 / 1000) ^ h.length := by
  induction h with
  | nil => exact (sub_self 1).symm
  | cons p h ih =>
      rw [reliability, ih, ResidualEchoDetector.kAlpha_real, List.length_cons, pow_succ]
      ring

theorem reliability_nonneg (h : List (Frame ℝ)) : 0 ≤ reliability h := by
  rw [reliability_eq, sub_nonneg]
  exact pow_le_one₀ (by norm_num) (by norm_num)

theorem reliability_lt_one (h : List (Frame ℝ)) : reliability h < 1 := by
  rw [reliability_eq]
  have : (0 : ℝ) < (999 / 1000) ^ h.length := by positivity
  linarith

theorem reliability_le_cons (p : Frame ℝ) (h : List (Frame ℝ)) :
    reliability h ≤ reliability (p :: h) := by
  have hpow : (999 / 1000 : ℝ) ^ (h.length + 1) ≤ (999 / 1000) ^ h.length :=
    pow_le_pow_of_le_one (by norm_num) (by norm_num) (Nat.le_succ _)
  rw [reliability_eq, reliability_eq, List.length_cons]
  linarith

/-- The cap at 1 never cuts the likelihood. -/
theorem echoLikelihood_cons (p : Frame ℝ) (h : List (Frame ℝ)) :
    echoLikelihood (p :: h) = loopLikelihood (p :: h) * reliability (p :: h) := by
  rw [echoLikelihood, stdMin_real]
  apply min_eq_left
  exact mul_le_one₀ (loopLikelihood_lt_one _).le (reliability_nonneg _)
    (reliability_lt_one _).le

theorem echoLikelihood_nonneg (h : List (Frame ℝ)) : 0 ≤ echoLikelihood h := by
  cases h with
  | nil => exact le_rfl
  | cons p h =>
      rw [echoLikelihood_cons]
      exact mul_nonneg (loopLikelihood_nonneg _) (reliability_nonneg _)

theorem echoLikelihood_le_reliability (h : List (Frame ℝ)) :
    echoLikelihood h ≤ reliability h := by
  cases h with
  | nil => exact le_rfl
  | cons p h =>
      rw [echoLikelihood_cons]
      exact mul_le_of_le_one_left (reliability_nonneg _) (loopLikelihood_lt_one _).le

theorem echoLikelihood_lt_one (h : List (Frame ℝ)) : echoLikelihood h < 1 :=
  (echoLikelihood_le_reliability h).trans_lt (reliability_lt_one h)

/-! ## The recent maximum -/

theorem recentMax_cons (p : Frame ℝ) (h : List (Frame ℝ)) :
    (recentMax (p :: h)).max = max (recentMax h).age.max (echoLikelihood (p :: h)) :=
  MovingMax.update_max_real _ _

/-- The recent maximum covers the current likelihood and stays below the reliability. -/
theorem recentMax_bounds (h : List (Frame ℝ)) :
    echoLikelihood h ≤ (recentMax h).max ∧ (recentMax h).max ≤ reliability h := by
  induction h with
  | nil => exact ⟨le_rfl, le_rfl⟩
  | cons p h ih =>
      have hnonneg : 0 ≤ (recentMax h).max := (echoLikelihood_nonneg h).trans ih.1
      have haged := (MovingMax.age_max_real hnonneg).2
      rw [recentMax_cons]
      constructor
      · exact le_max_right _ _
      · -- the aged maximum obeys the old bound, which has only grown
        apply max_le
        · exact (haged.trans ih.2).trans (reliability_le_cons p h)
        · exact echoLikelihood_le_reliability _

/-- **Order of the metrics**: nothing reported exceeds `1 - 0.999 ^ n` after `n` frames. -/
theorem metrics_bounds (h : List (Frame ℝ)) :
    0 ≤ (metrics h).echoLikelihood ∧
      (metrics h).echoLikelihood ≤ (metrics h).echoLikelihoodRecentMax ∧
      (metrics h).echoLikelihoodRecentMax ≤ 1 - 0.999 ^ h.length := by
  have hmax : (recentMax h).max ≤ 1 - 0.999 ^ h.length := by
    have hdec : (0.999 : ℝ) = 999 / 1000 := by norm_num
    rw [hdec, ← reliability_eq]
    exact (recentMax_bounds h).2
  exact ⟨echoLikelihood_nonneg h, (recentMax_bounds h).1, hmax⟩

end History

namespace ResidualEchoDetector

/-! ## The likelihoods reported over the life of a detector -/

section Reported

variable {F : Type u} [FloatMath F]

/-- The likelihood a call reports, when it processes a capture. -/
def reported (d : ResidualEchoDetector F) : Call F → Option F
  | .analyzeRenderAudio _ => none
  | .analyzeCaptureAudio y =>
    d.nextRenderPower.map fun _ => (d.analyzeCaptureAudio y).echoLikelihood
  | .initializeDetector => none

/-- The likelihoods reported by the processed captures of a run, oldest first. -/
def likelihoods (calls : List (Call F)) : List F :=
  (Machine.observe step reported new calls).filterMap id

theorem likelihoods_concat (calls : List (Call F)) (c : Call F) :
    likelihoods (calls ++ [c]) = likelihoods calls ++ ((run calls).reported c).toList := by
  rw [likelihoods, Machine.observe_append, List.filterMap_append, Machine.observe_cons,
    Machine.observe_nil, ← run, ← likelihoods]
  cases (run calls).reported c <;> rfl

theorem length_likelihoods_le (calls : List (Call F)) :
    (likelihoods calls).length ≤ calls.length := by
  induction calls using List.reverseRecOn with
  | nil => exact le_rfl
  | append_singleton calls c ih =>
      rw [likelihoods_concat, List.length_append, List.length_append, List.length_singleton]
      have hone : ((run calls).reported c).toList.length ≤ 1 := by
        cases (run calls).reported c <;> simp
      omega

/-- The bucket a processed frame is counted in. -/
theorem processFrame_histogram (d : ResidualEchoDetector F) (r c : F) :
    (d.processFrame r c).echoLikelihoodHistogram =
      d.echoLikelihoodHistogram.add
        (truncate ((d.processFrame r c).echoLikelihood * ofInt 100)) := by
  simp only [processFrame, logState]
  split_ifs <;> rfl

/-- **One call** adds to the histogram what it reports, and nothing else. -/
theorem step_histogram (d : ResidualEchoDetector F) (c : Call F) :
    (d.step c).echoLikelihoodHistogram =
      match d.reported c with
      | none => d.echoLikelihoodHistogram
      | some e => d.echoLikelihoodHistogram.add (truncate (e * ofInt 100)) := by
  cases c with
  | analyzeRenderAudio x =>
      rcases d.analyzeRenderAudio_buffering x with ⟨b, n, hd⟩
      rw [step, hd]
      rfl
  | analyzeCaptureAudio y =>
      have hpop : d.popRender.2.echoLikelihoodHistogram = d.echoLikelihoodHistogram := by
        rcases d.popRender_buffering with ⟨b, hd⟩
        rw [hd]
        rfl
      rw [step, reported, analyzeCaptureAudio_eq]
      cases d.nextRenderPower with
      | none => exact hpop
      | some r =>
          simp only [Option.map_some]
          rw [processFrame_histogram, hpop]
  | initializeDetector => rfl

end Reported

/-- What a call reports is the likelihood of the history it leaves. -/
theorem Tracks.reported {d : ResidualEchoDetector ℝ} {h : List (Frame ℝ)} (ht : d.Tracks h)
    {c : Call ℝ} {e : ℝ} (he : d.reported c = some e) :
    e = History.echoLikelihood (d.record h c) := by
  cases c with
  | analyzeRenderAudio x => exact absurd he (by simp [ResidualEchoDetector.reported])
  | analyzeCaptureAudio y =>
      rw [← (ht.step _).echoLikelihood]
      rw [ResidualEchoDetector.reported, Option.map_eq_some_iff] at he
      rcases he with ⟨r, -, he⟩
      exact he.symm
  | initializeDetector => exact absurd he (by simp [ResidualEchoDetector.reported])

/-! ## The histogram -/

/-- The bucket of a likelihood: its whole percentage. -/
noncomputable def bucket (e : ℝ) : ℤ := ⌊100 * e⌋

theorem bucket_bounds {e : ℝ} (h₀ : 0 ≤ e) (h₁ : e < 1) : 0 ≤ bucket e ∧ bucket e ≤ 99 := by
  constructor
  · exact Int.floor_nonneg.mpr (by linarith)
  · have : bucket e < 100 := Int.floor_lt.mpr (by push_cast; linarith)
    omega

theorem truncate_percentage {e : ℝ} (h : 0 ≤ e) : truncate (e * ofInt 100) = bucket e := by
  rw [truncate_real, ofInt_real, truncReal_of_nonneg (by positivity), bucket, mul_comm]
  norm_num

/-- The histogram holds the likelihoods `es`, each in its own bucket and all of them in
0..99. -/
structure Counts (h : RtcHistogram) (es : List ℝ) : Prop where
  min_eq : h.min = 0
  max_eq : h.max = 100
  count : ∀ b, h.numEvents b = (es.map bucket).count b
  keys : ∀ b ∈ h.samples, 0 ≤ b ∧ b ≤ 99

/-- The cap on the number of samples is out of reach. -/
theorem Counts.size_lt {h : RtcHistogram} {es : List ℝ} (hc : Counts h es) :
    h.samples.size < kMaxSampleMapSize := by
  have hcard := RtcHistogram.size_le_card hc.keys
  have hrange : (Finset.Icc (0 : ℤ) 99).card = 100 := by decide
  rw [hrange] at hcard
  exact Nat.lt_of_le_of_lt hcard (by decide)

theorem Counts.add {h : RtcHistogram} {es : List ℝ} (hc : Counts h es) {e : ℝ} (h₀ : 0 ≤ e)
    (h₁ : e < 1) (hsmall : es.length + 1 < 2 ^ 31) :
    Counts (h.add (bucket e)) (es ++ [e]) := by
  rcases bucket_bounds h₀ h₁ with ⟨hlo, hhi⟩
  -- neither the clamp nor the cap touches a bucket in 0..99
  have hclamp : h.clamp (bucket e) = bucket e := by
    have hunder : wrapInt (0 - 1) = -1 := by decide
    rw [RtcHistogram.clamp, hc.min_eq, hc.max_eq, hunder]
    omega
  have hcap : h.samples.size ≠ kMaxSampleMapSize ∨ h.clamp (bucket e) ∈ h.samples :=
    Or.inl (Nat.ne_of_lt hc.size_lt)
  refine ⟨?_, ?_, ?_, ?_⟩
  · rw [RtcHistogram.add_min, hc.min_eq]
  · rw [RtcHistogram.add_max, hc.max_eq]
  · intro b
    rw [RtcHistogram.numEvents_add hcap, hclamp, hc.count, List.map_append,
      List.count_append, List.map_singleton, List.count_singleton]
    by_cases hb : bucket e = b
    · -- the counter of this bucket moves by one, without wrapping
      have hle : (es.map bucket).count b ≤ es.length := by
        simpa using List.count_le_length (l := es.map bucket) (a := b)
      rw [if_pos hb, if_pos (by simpa using hb), wrapInt_of_lt (by omega) (by omega)]
      push_cast
      rfl
    · rw [if_neg hb, if_neg (by simpa using hb), Nat.add_zero]
  · intro b hb
    rw [RtcHistogram.samples_add hcap, hclamp, Std.TreeMap.mem_insert,
      Std.LawfulEqCmp.compare_eq_iff_eq] at hb
    rcases hb with rfl | hb
    · exact ⟨hlo, hhi⟩
    · exact hc.keys b hb

theorem counts_new : Counts (new : ResidualEchoDetector ℝ).echoLikelihoodHistogram [] where
  min_eq := rfl
  max_eq := rfl
  count := by
    intro b
    exact RtcHistogram.numEvents_new _ _ _ _ b
  keys := by
    intro b hb
    exact absurd hb Std.TreeMap.not_mem_emptyc

/-- One call keeps the count. -/
theorem Counts.step {d : ResidualEchoDetector ℝ} {h : List (Frame ℝ)} {es : List ℝ}
    (ht : d.Tracks h) (hc : Counts d.echoLikelihoodHistogram es) (c : Call ℝ)
    (hsmall : (es ++ (d.reported c).toList).length < 2 ^ 31) :
    Counts (d.step c).echoLikelihoodHistogram (es ++ (d.reported c).toList) := by
  rw [step_histogram]
  cases he : d.reported c with
  | none => simpa using hc
  | some e =>
      have hval := ht.reported he
      have h₀ : 0 ≤ e := hval ▸ History.echoLikelihood_nonneg _
      have h₁ : e < 1 := hval ▸ History.echoLikelihood_lt_one _
      rw [he, Option.toList_some, List.length_append, List.length_singleton] at hsmall
      simp only [Option.toList_some]
      rw [truncate_percentage h₀]
      exact hc.add h₀ h₁ hsmall

/-- The histogram counts the likelihoods of the whole run. -/
theorem counts_run (calls : List (Call ℝ)) (hsmall : (likelihoods calls).length < 2 ^ 31) :
    Counts (run calls).echoLikelihoodHistogram (likelihoods calls) := by
  induction calls using List.reverseRecOn with
  | nil => exact counts_new
  | append_singleton calls c ih =>
      rw [likelihoods_concat] at hsmall ⊢
      have hpre : (likelihoods calls).length < 2 ^ 31 := by
        rw [List.length_append] at hsmall
        omega
      rw [run_concat]
      exact Counts.step (tracks_run calls) (ih hpre) c hsmall

theorem bucket_of_mem_likelihoods (calls : List (Call ℝ)) :
    ∀ e ∈ likelihoods calls, 0 ≤ bucket e ∧ bucket e ≤ 99 := by
  induction calls using List.reverseRecOn with
  | nil =>
      intro e he
      exact absurd he List.not_mem_nil
  | append_singleton calls c ih =>
      intro e he
      rw [likelihoods_concat, List.mem_append] at he
      rcases he with hold | hnew
      · exact ih e hold
      · have hval := (tracks_run calls).reported (Option.mem_toList.mp hnew)
        rw [hval]
        exact bucket_bounds (History.echoLikelihood_nonneg _) (History.echoLikelihood_lt_one _)

/-- **Metrics and histogram**: after every run with fewer than `2 ^ 31` processed captures
the two metrics are ordered and stay below the reliability of the frames since the last
`Initialize`; the histogram holds one event for each capture processed since construction,
in the bucket of the likelihood it reported, the buckets are in 0..99 and their number is
below the cap. -/
theorem metrics_and_histogram (calls : List (Call ℝ))
    (hsmall : (likelihoods calls).length < 2 ^ 31) :
    (0 ≤ (run calls).getMetrics.echoLikelihood ∧
      (run calls).getMetrics.echoLikelihood ≤
        (run calls).getMetrics.echoLikelihoodRecentMax ∧
      (run calls).getMetrics.echoLikelihoodRecentMax ≤
        1 - 0.999 ^ (history calls).length) ∧
    (∀ b, (run calls).echoLikelihoodHistogram.numEvents b =
      ((likelihoods calls).map bucket).count b) ∧
    (∀ e ∈ likelihoods calls, 0 ≤ bucket e ∧ bucket e ≤ 99) ∧
    (∀ b ∈ (run calls).echoLikelihoodHistogram.samples, 0 ≤ b ∧ b ≤ 99) ∧
    (run calls).echoLikelihoodHistogram.samples.size < kMaxSampleMapSize := by
  have hc := counts_run calls hsmall
  rw [getMetrics_run]
  exact ⟨History.metrics_bounds _, hc.count, bucket_of_mem_likelihoods calls, hc.keys,
    hc.size_lt⟩

/-- The bound on the number of captures is one on the length of the run: here three calls
process one capture. -/
theorem metrics_and_histogram_short :
    let calls : List (Call ℝ) :=
      [.analyzeCaptureAudio [1], .analyzeRenderAudio [1], .analyzeCaptureAudio [1]]
    (likelihoods calls).length < 2 ^ 31 ∧
      (run calls).echoLikelihoodHistogram.samples.size < kMaxSampleMapSize := by
  intro calls
  have hsmall : (likelihoods calls).length < 2 ^ 31 :=
    (length_likelihoods_le calls).trans_lt (by decide)
  exact ⟨hsmall, (metrics_and_histogram calls hsmall).2.2.2.2⟩

end ResidualEchoDetector

end AudioProc
