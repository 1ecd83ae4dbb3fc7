import AudioProc.Estimators
import AudioProc.Ewma
import AudioProc.Machine

/-!
# Runs of the estimators

What `MeanVarianceEstimator` and `MovingMax` hold after any sequence of updates, in exact
real arithmetic. The values of a sequence are numbered from 1, oldest first.

* The mean is the exponentially weighted mean and the variance the weighted variance about
  it, up to the factor `q` that comes from using the new mean in the update
  (`MeanVarianceEstimator.run_is_batch`).
* The maximum is one of the values, held for a window and decayed since; the counter is
  the age of that value (`MovingMax.Ruled`, `MovingMax.run_max`).
-/

namespace AudioProc

open Ewma Finset

universe u

/-- The `k`-th value of a sequence, counted from 1; 0 where there is none. -/
def valueAt {α : Type u} [Zero α] (vs : List α) : ℕ → α
  | 0 => 0
  | k + 1 => vs.getD k 0

section Values

variable {α : Type u} [Zero α]

theorem valueAt_concat {vs : List α} {k : ℕ} (h : k ≤ vs.length) (x : α) :
    valueAt (vs ++ [x]) k = valueAt vs k := by
  cases k with
  | zero => rfl
  | succ k => simp [valueAt, List.getElem?_append_left h]

theorem valueAt_last (vs : List α) (x : α) : valueAt (vs ++ [x]) (vs.length + 1) = x := by
  simp [valueAt]

theorem valueAt_of_lt {vs : List α} {k : ℕ} (h : vs.length < k) : valueAt vs k = 0 := by
  cases k with
  | zero => rfl
  | succ k =>
      have hk : vs.length ≤ k := Nat.le_of_lt_succ h
      simp [valueAt, hk]

theorem valueAt_mem {vs : List α} {k : ℕ} (h₁ : 1 ≤ k) (h : k ≤ vs.length) :
    valueAt vs k ∈ vs := by
  cases k with
  | zero => omega
  | succ k => simp [valueAt, show k < vs.length from h]

end Values

namespace MeanVarianceEstimator

theorem run_mean (vs : List ℝ) :
    (Machine.run update new vs).mean =
      ewSum (1 / 1000) (999 / 1000) (valueAt vs) vs.length := by
  induction vs using List.reverseRecOn with
  | nil => exact (ewSum_zero _ _ _).symm
  | append_singleton vs x ih =>
      have hold : ∀ k, 1 ≤ k → k ≤ vs.length → valueAt vs k = valueAt (vs ++ [x]) k := by
        intro k _ hk
        exact (valueAt_concat hk x).symm
      rw [Machine.run_concat, update_mean_real, ih, List.length_append, List.length_singleton,
        ewSum_succ, valueAt_last, ewSum_congr _ _ hold]

theorem run_variance (vs : List ℝ) :
    (Machine.run update new vs).variance =
      ewCov (1 / 1000) (999 / 1000) (valueAt vs) (valueAt vs) vs.length := by
  induction vs using List.reverseRecOn with
  | nil => exact (ewCov_zero _ _ _ _).symm
  | append_singleton vs x ih =>
      have hold : ∀ k, 1 ≤ k → k ≤ vs.length → valueAt vs k = valueAt (vs ++ [x]) k := by
        intro k _ hk
        exact (valueAt_concat hk x).symm
      -- the deviation is taken from the mean that already has the new value in it
      have hmean : (Machine.run update new (vs ++ [x])).mean =
          ewSum (1 / 1000) (999 / 1000) (valueAt (vs ++ [x])) (vs.length + 1) := by
        rw [run_mean, List.length_append, List.length_singleton]
      rw [Machine.run_concat] at hmean ⊢
      rw [update_variance_real, ih, hmean, List.length_append, List.length_singleton,
        ewCov_succ _ _ (by norm_num), valueAt_last, ewCov_congr _ _ hold hold]
      ring

theorem run_variance_nonneg (vs : List ℝ) : 0 ≤ (Machine.run update new vs).variance := by
  refine Machine.run_invariant (fun e : MeanVarianceEstimator ℝ => 0 ≤ e.variance) ?_ le_rfl vs
  intro e v he
  exact update_variance_nonneg he v

theorem run_variance_le {lo hi : ℝ} (hlo : lo ≤ 0) (hhi : 0 ≤ hi) {vs : List ℝ}
    (hvs : ∀ v ∈ vs, lo ≤ v ∧ v ≤ hi) :
    (Machine.run update new vs).variance ≤ 999 / 1000 * (hi - lo) ^ 2 / 4 := by
  have hvalues : ∀ k, 1 ≤ k → k ≤ vs.length → lo ≤ valueAt vs k ∧ valueAt vs k ≤ hi := by
    intro k hk hkn
    exact hvs _ (valueAt_mem hk hkn)
  have hpop := four_ewSum_sq_sub_le (a := 1 / 1000) (q := 999 / 1000) (by norm_num)
    (by norm_num) (by norm_num) hlo hhi hvalues
  rw [run_variance, ewCov]
  linarith

/-- **One pass is two passes**: after any values given to a new or cleared estimator, with
`v k` the `k`-th of `n`, the mean is their exponentially weighted mean and the variance
`q` times their weighted variance about it. It is never negative, and at most `q W² / 4`
when the values and 0 lie in an interval of width `W`. -/
theorem run_is_batch (e₀ : MeanVarianceEstimator ℝ) (hstart : e₀ = new ∨ ∃ e, e₀ = clear e)
    (vs : List ℝ) :
    let n := vs.length
    let v := valueAt vs
    let a : ℝ := 1 / 1000
    let q : ℝ := 1 - a
    let e := Machine.run update e₀ vs
    e.mean = ∑ k ∈ Icc 1 n, a * q ^ (n - k) * v k ∧
    e.variance = q * (∑ k ∈ Icc 1 n, a * q ^ (n - k) * v k ^ 2 - e.mean ^ 2) ∧
    0 ≤ e.variance ∧
    ∀ lo hi W : ℝ, hi - lo = W → (lo ≤ 0 ∧ 0 ≤ hi) → (∀ k ∈ Icc 1 n, lo ≤ v k ∧ v k ≤ hi) →
      e.variance ≤ q * W ^ 2 / 4 := by
  intro n v a q e
  have hq : q = 999 / 1000 := by norm_num [q, a]
  have hnew : e₀ = new := by
    rcases hstart with rfl | ⟨e', rfl⟩
    · rfl
    · rfl
  have hmean : e.mean = ewSum a q v n := by
    rw [hq]
    exact (congrArg (fun e => (Machine.run update e vs).mean) hnew).trans (run_mean vs)
  have hvariance : e.variance = ewCov a q v v n := by
    rw [hq]
    exact (congrArg (fun e => (Machine.run update e vs).variance) hnew).trans (run_variance vs)
  refine ⟨hmean, ?_, ?_, ?_⟩
  · rw [hvariance, hmean, ewCov]
    simp only [pow_two, ewSum]
  · show 0 ≤ (Machine.run update e₀ vs).variance
    rw [hnew]
    exact run_variance_nonneg vs
  · rintro lo hi W rfl ⟨hlo, hhi⟩ hvalues
    -- the values are numbered from 1, the list from 0
    have hvs : ∀ x ∈ vs, lo ≤ x ∧ x ≤ hi := by
      intro x hx
      rcases List.getElem_of_mem hx with ⟨k, hk, rfl⟩
      have hvk := hvalues (k + 1) (mem_Icc.mpr ⟨Nat.succ_pos k, hk⟩)
      simpa [v, valueAt, hk] using hvk
    show (Machine.run update e₀ vs).variance ≤ _
    rw [hnew, hq]
    exact run_variance_le hlo hhi hvs

/-- Powers between 0 and 1: the variance stays below a quarter. -/
theorem run_is_batch_unit :
    let e := Machine.run update (new : MeanVarianceEstimator ℝ) [1, 0, 1]
    0 ≤ e.variance ∧ e.variance ≤ (1 - 1 / 1000) * 1 ^ 2 / 4 := by
  rcases run_is_batch new (Or.inl rfl) [1, 0, 1] with ⟨-, -, hnonneg, hle⟩
  refine ⟨hnonneg, hle 0 1 1 (by norm_num) ⟨le_rfl, zero_le_one⟩ ?_⟩
  intro k hk
  rw [mem_Icc] at hk
  rcases hk with ⟨hk, hkn⟩
  have hcases : k = 1 ∨ k = 2 ∨ k = 3 := by
    simp only [List.length_cons, List.length_nil] at hkn
    omega
  rcases hcases with rfl | rfl | rfl
  · norm_num [valueAt]
  · norm_num [valueAt]
  · norm_num [valueAt]

end MeanVarianceEstimator

namespace MovingMax

/-- Value `i` rules after `n` values: the maximum is that value, held for `w` updates and
decayed since then, the counter is its age up to `w - 1`, and none of the later values
was above what value `i` was worth at its time. -/
structure Ruled (w : ℕ) (v : ℕ → ℝ) (n i : ℕ) (m : MovingMax ℝ) : Prop where
  windowSize_eq : m.windowSize = w
  one_le : 1 ≤ i
  le : i ≤ n
  value_pos : 0 < v i
  max_eq : m.max = v i * kDecayFactor ^ (n - i + 1 - w)
  counter_eq : m.counter = min (n - i) (w - 1)
  later_le : ∀ j, i < j → j ≤ n → v j ≤ v i * kDecayFactor ^ (j - i + 1 - w)

/-- No value so far was positive. -/
structure Unruled (w : ℕ) (v : ℕ → ℝ) (n : ℕ) (m : MovingMax ℝ) : Prop where
  windowSize_eq : m.windowSize = w
  max_eq : m.max = 0
  nonpos : ∀ k, 1 ≤ k → k ≤ n → v k ≤ 0

theorem kDecayFactor_pos : (0 : ℝ) < kDecayFactor := by
  rw [kDecayFactor_real]
  norm_num

/-- What the first half of an update does to the maximum and the counter. -/
theorem age_cases (m : MovingMax ℝ) :
    (m.windowSize - 1 ≤ m.counter ∧ m.age.max = m.max * kDecayFactor ∧
      m.age.counter = m.counter) ∨
    (m.counter < m.windowSize - 1 ∧ m.age.max = m.max ∧ m.age.counter = m.counter + 1) := by
  unfold age
  split_ifs with hold
  · exact Or.inl ⟨hold, rfl, rfl⟩
  · exact Or.inr ⟨Nat.lt_of_not_le hold, rfl, rfl⟩

/-- What the second half does: a value above the aged maximum replaces it. -/
theorem update_cases (m : MovingMax ℝ) (x : ℝ) :
    (m.age.max < x ∧ (m.update x).max = x ∧ (m.update x).counter = 0) ∨
    (x ≤ m.age.max ∧ m.update x = m.age) := by
  by_cases hnew : m.age.max < x
  · left
    have hupdate : m.update x = { m.age with maxValue := x, counter := 0 } := if_pos hnew
    rw [hupdate]
    exact ⟨hnew, rfl, rfl⟩
  · right
    exact ⟨not_lt.mp hnew, if_neg hnew⟩

/-- A value above the aged maximum is the new ruler. -/
theorem ruled_of_lt {w n : ℕ} (hw : 0 < w) {v : ℕ → ℝ} {m : MovingMax ℝ} {x : ℝ}
    (hm : m.windowSize = w) (hpos : 0 < x) (hx : v (n + 1) = x) (hmax : (m.update x).max = x)
    (hcounter : (m.update x).counter = 0) : Ruled w v (n + 1) (n + 1) (m.update x) where
  windowSize_eq := (update_windowSize m x).trans hm
  one_le := Nat.succ_pos n
  le := le_rfl
  value_pos := hx ▸ hpos
  max_eq := by
    have hexp : n + 1 - (n + 1) + 1 - w = 0 := by omega
    rw [hmax, hx, hexp, pow_zero, mul_one]
  counter_eq := by
    rw [hcounter, Nat.sub_self, Nat.zero_min]
  later_le := by
    intro j hj hjn
    omega

/-- While value `i` still rules, it is worth one more decay step once its window is over. -/
theorem Ruled.age {w n i : ℕ} {v : ℕ → ℝ} {m : MovingMax ℝ} (hw : 0 < w)
    (h : Ruled w v n i m) :
    m.age.max = v i * kDecayFactor ^ (n + 1 - i + 1 - w) ∧
      m.age.counter = min (n + 1 - i) (w - 1) := by
  have hin := h.le
  have hcounter := h.counter_eq
  rcases m.age_cases with ⟨hold, hmax, hcount⟩ | ⟨hyoung, hmax, hcount⟩
  · -- the window of `i` is over
    rw [h.windowSize_eq] at hold
    have hexp : n + 1 - i + 1 - w = n - i + 1 - w + 1 := by omega
    constructor
    · rw [hmax, h.max_eq, hexp, pow_succ, mul_assoc]
    · omega
  · rw [h.windowSize_eq] at hyoung
    have hexp : n + 1 - i + 1 - w = 0 := by omega
    have hexp' : n - i + 1 - w = 0 := by omega
    constructor
    · rw [hmax, h.max_eq, hexp, hexp']
    · omega

/-- **One update**, when value `i` rules: it goes on ruling or the new value takes over. -/
theorem Ruled.update {w n i : ℕ} {v : ℕ → ℝ} {m : MovingMax ℝ} (hw : 0 < w)
    (h : Ruled w v n i m) {x : ℝ} (hx : v (n + 1) = x) :
    Ruled w v (n + 1) (n + 1) (m.update x) ∨ Ruled w v (n + 1) i (m.update x) := by
  rcases h.age hw with ⟨hagemax, hagecounter⟩
  rcases m.update_cases x with ⟨hlt, hmax, hcounter⟩ | ⟨hle, hupdate⟩
  · left
    have hpos : 0 < m.age.max := by
      rw [hagemax]
      exact mul_pos h.value_pos (pow_pos kDecayFactor_pos _)
    exact ruled_of_lt hw h.windowSize_eq (hpos.trans hlt) hx hmax hcounter
  · right
    refine ⟨(update_windowSize m x).trans h.windowSize_eq, h.one_le, Nat.le_succ_of_le h.le,
      h.value_pos, ?_, ?_, ?_⟩
    · rw [hupdate, hagemax]
    · rw [hupdate, hagecounter]
    · intro j hij hj
      rcases Nat.lt_or_eq_of_le hj with hlt | rfl
      · exact h.later_le j hij (Nat.le_of_lt_succ hlt)
      · -- the new value did not exceed what `i` is worth now
        rw [hx, ← hagemax]
        exact hle

/-- **One update**, when no value was positive yet. -/
theorem Unruled.update {w n : ℕ} {v : ℕ → ℝ} {m : MovingMax ℝ} (hw : 0 < w)
    (h : Unruled w v n m) {x : ℝ} (hx : v (n + 1) = x) :
    Unruled w v (n + 1) (m.update x) ∨ Ruled w v (n + 1) (n + 1) (m.update x) := by
  have hagemax : m.age.max = 0 := by
    rcases m.age_cases with ⟨-, hmax, -⟩ | ⟨-, hmax, -⟩
    · rw [hmax, h.max_eq, zero_mul]
    · rw [hmax, h.max_eq]
  rcases m.update_cases x with ⟨hlt, hmax, hcounter⟩ | ⟨hle, hupdate⟩
  · right
    rw [hagemax] at hlt
    exact ruled_of_lt hw h.windowSize_eq hlt hx hmax hcounter
  · left
    refine ⟨(update_windowSize m x).trans h.windowSize_eq, ?_, ?_⟩
    · rw [hupdate, hagemax]
    · intro k hk hkn
      rcases Nat.lt_or_eq_of_le hkn with hlt | rfl
      · exact h.nonpos k hk (Nat.le_of_lt_succ hlt)
      · rw [hx, ← hagemax]
        exact hle

/-- Only the values up to `n` matter. -/
theorem Ruled.congr {w n i : ℕ} {v v' : ℕ → ℝ} {m : MovingMax ℝ} (h : Ruled w v n i m)
    (hv : ∀ k, k ≤ n → v k = v' k) : Ruled w v' n i m where
  windowSize_eq := h.windowSize_eq
  one_le := h.one_le
  le := h.le
  value_pos := hv i h.le ▸ h.value_pos
  max_eq := hv i h.le ▸ h.max_eq
  counter_eq := h.counter_eq
  later_le := by
    intro j hij hj
    rw [← hv i h.le, ← hv j hj]
    exact h.later_le j hij hj

theorem Unruled.congr {w n : ℕ} {v v' : ℕ → ℝ} {m : MovingMax ℝ} (h : Unruled w v n m)
    (hv : ∀ k, k ≤ n → v k = v' k) : Unruled w v' n m where
  windowSize_eq := h.windowSize_eq
  max_eq := h.max_eq
  nonpos := by
    intro k hk hkn
    rw [← hv k hkn]
    exact h.nonpos k hk hkn

/-- **Who rules after a run**: nobody while no value was positive, one of the values from
then on. -/
theorem run_ruled {w : ℕ} (hw : 0 < w) (vs : List ℝ) :
    Unruled w (valueAt vs) vs.length (Machine.run update (new w hw) vs) ∨
      ∃ i, Ruled w (valueAt vs) vs.length i (Machine.run update (new w hw) vs) := by
  induction vs using List.reverseRecOn with
  | nil =>
      left
      refine ⟨rfl, rfl, ?_⟩
      intro k hk hkn
      exact absurd (hk.trans hkn) (by simp)
  | append_singleton vs x ih =>
      have hold : ∀ k, k ≤ vs.length → valueAt vs k = valueAt (vs ++ [x]) k := by
        intro k hk
        exact (valueAt_concat hk x).symm
      have hx := valueAt_last vs x
      rw [Machine.run_concat, List.length_append, List.length_singleton]
      rcases ih with hun | ⟨i, hruled⟩
      · rcases (hun.congr hold).update hw hx with hstill | hnew
        · exact Or.inl hstill
        · exact Or.inr ⟨_, hnew⟩
      · rcases (hruled.congr hold).update hw hx with hnew | hstill
        · exact Or.inr ⟨_, hnew⟩
        · exact Or.inr ⟨_, hstill⟩

theorem run_windowSize (m : MovingMax ℝ) (vs : List ℝ) :
    (Machine.run update m vs).windowSize = m.windowSize := by
  refine Machine.run_invariant (fun m' : MovingMax ℝ => m'.windowSize = m.windowSize) ?_ rfl vs
  intro m' v hm'
  exact (update_windowSize m' v).trans hm'

theorem run_max_nonneg {w : ℕ} (hw : 0 < w) (vs : List ℝ) :
    0 ≤ (Machine.run update (new w hw) vs).max := by
  rcases run_ruled hw vs with hun | ⟨i, hruled⟩
  · exact hun.max_eq.ge
  · rw [hruled.max_eq]
    exact (mul_pos hruled.value_pos (pow_pos kDecayFactor_pos _)).le

/-- Ageing takes away one decay step at most. -/
theorem decay_le_age_max {m : MovingMax ℝ} (h : 0 ≤ m.max) :
    kDecayFactor * m.max ≤ m.age.max := by
  rcases m.age_cases with ⟨-, hmax, -⟩ | ⟨-, hmax, -⟩
  · rw [hmax, mul_comm]
  · rw [hmax, kDecayFactor_real]
    linarith

/-- The maximum is at least what every value would be, had it decayed from the start. -/
theorem decayed_le_run_max {w : ℕ} (hw : 0 < w) (vs : List ℝ) :
    ∀ k, 1 ≤ k → k ≤ vs.length →
      kDecayFactor ^ (vs.length - k) * valueAt vs k ≤ (Machine.run update (new w hw) vs).max := by
  induction vs using List.reverseRecOn with
  | nil =>
      intro k hk hkn
      exact absurd (hk.trans hkn) (by simp)
  | append_singleton vs x ih =>
      intro k hk hkn
      rw [List.length_append, List.length_singleton] at hkn ⊢
      rw [Machine.run_concat, update_max_real]
      rcases Nat.lt_or_eq_of_le hkn with hlt | rfl
      · have hkn' : k ≤ vs.length := Nat.le_of_lt_succ hlt
        have hold := ih k hk hkn'
        have hage := decay_le_age_max (run_max_nonneg hw vs)
        rw [valueAt_concat hkn', Nat.succ_sub hkn', pow_succ', mul_assoc]
        calc kDecayFactor * (kDecayFactor ^ (vs.length - k) * valueAt vs k)
            ≤ kDecayFactor * (Machine.run update (new w hw) vs).max :=
              mul_le_mul_of_nonneg_left hold kDecayFactor_pos.le
          _ ≤ (Machine.run update (new w hw) vs).age.max := hage
          _ ≤ _ := le_max_left _ _
      · rw [valueAt_last, Nat.sub_self, pow_zero, one_mul]
        exact le_max_right _ _

/-- A maximum whose counter does not run out is held through values that do not exceed it. -/
theorem run_hold {m : MovingMax ℝ} {us : List ℝ} (hus : ∀ u ∈ us, u ≤ m.max)
    (hcounter : m.counter + us.length ≤ m.windowSize - 1) :
    (Machine.run update m us).max = m.max := by
  induction us generalizing m with
  | nil => rfl
  | cons u us ih =>
      rw [List.length_cons] at hcounter
      have hu : u ≤ m.max := hus u List.mem_cons_self
      have hrest : ∀ u' ∈ us, u' ≤ m.max := fun u' hu' => hus u' (List.mem_cons_of_mem u hu')
      rcases m.age_cases with ⟨hold, -, -⟩ | ⟨-, hmax, hcount⟩
      · omega
      · -- the counter goes up and nothing else changes
        have hupdate : m.update u = m.age := by
          rcases m.update_cases u with ⟨hlt, -, -⟩ | ⟨-, hupdate⟩
          · exact absurd (hmax ▸ hlt) (not_lt.mpr hu)
          · exact hupdate
        have hwindow := update_windowSize m u
        rw [hupdate] at hwindow
        rw [Machine.run_cons, hupdate, ← hmax]
        apply ih
        · rw [hmax]
          exact hrest
        · rw [hcount, hwindow]
          omega

/-- A new maximum is held through the next `w - 1` updates that do not exceed it. -/
theorem run_hold_new {m : MovingMax ℝ} {x : ℝ} (hx : m.age.max < x) {us : List ℝ}
    (hus : ∀ u ∈ us, u ≤ x) (hlength : us.length ≤ m.windowSize - 1) :
    (Machine.run update m (x :: us)).max = x := by
  rcases m.update_cases x with ⟨-, hmax, hcounter⟩ | ⟨hle, -⟩
  · rw [Machine.run_cons, run_hold, hmax]
    · rw [hmax]
      exact hus
    · rw [hcounter, update_windowSize, Nat.zero_add]
      exact hlength
  · exact absurd hx (not_lt.mpr hle)

/-- **The moving maximum**: after any values given to a new or cleared `MovingMax` with a
window of `w`, either the maximum is 0 and no value was positive, or it is one of the
values, positive, held for its window and decayed since, and every later value was at most
what that one was worth then. It is at least the last value and at least every value
decayed from the start, and a value above the aged maximum is held through the following
`w - 1` updates that do not exceed it. -/
theorem run_max {w : ℕ} (hw : 0 < w) (m₀ : MovingMax ℝ)
    (hstart : m₀ = new w hw ∨ ∃ m : MovingMax ℝ, m.windowSize = w ∧ m₀ = m.clear)
    (vs : List ℝ) :
    let n := vs.length
    let v := valueAt vs
    let D : ℝ := 99 / 100
    let m := Machine.run update m₀ vs
    ((m.max = 0 ∧ ∀ k, 1 ≤ k → k ≤ n → v k ≤ 0) ∨
      ∃ i, 1 ≤ i ∧ i ≤ n ∧ 0 < v i ∧ m.max = v i * D ^ (n - i + 1 - w) ∧
        ∀ j, i < j → j ≤ n → v j ≤ v i * D ^ (j - i + 1 - w)) ∧
    (1 ≤ n → v n ≤ m.max) ∧
    (∀ k, 1 ≤ k → k ≤ n → D ^ (n - k) * v k ≤ m.max) ∧
    ∀ x us, m.age.max < x → us.length ≤ w - 1 → (∀ u ∈ us, u ≤ x) →
      (Machine.run update m (x :: us)).max = x := by
  intro n v D m
  -- a cleared maximum is a new one of the same window
  have hnew : m₀ = new w hw := by
    rcases hstart with rfl | ⟨m', rfl, rfl⟩
    · rfl
    · rfl
  have hm : m = Machine.run update (new w hw) vs := congrArg (Machine.run update · vs) hnew
  have hD : (kDecayFactor : ℝ) = D := kDecayFactor_real
  have hdecayed := decayed_le_run_max hw vs
  rw [← hm, hD] at hdecayed
  refine ⟨?_, ?_, hdecayed, ?_⟩
  -- either no value was above 0, or one of them rules and has decayed since
  · have hruled := run_ruled hw vs
    rw [← hm] at hruled
    rcases hruled with hun | ⟨i, hi⟩
    · exact Or.inl ⟨hun.max_eq, hun.nonpos⟩
    · have hmax := hi.max_eq
      have hlater := hi.later_le
      rw [hD] at hmax hlater
      exact Or.inr ⟨i, hi.one_le, hi.le, hi.value_pos, hmax, hlater⟩
  · intro hn
    have hlast := hdecayed n hn le_rfl
    rwa [Nat.sub_self, pow_zero, one_mul] at hlast
  · intro x us hx hlength hus
    have hwindow : m.windowSize = w := by
      rw [hm, run_windowSize]
      rfl
    exact run_hold_new hx hus (hlength.trans_eq (by rw [hwindow]))

/-- A window of two: a new maximum survives one smaller value undecayed. -/
theorem run_max_two :
    (Machine.run update (new 2 (by decide) : MovingMax ℝ) [3, 1]).max = 3 := by
  have hage : (new 2 (by decide) : MovingMax ℝ).age.max < 3 := by
    show (0 : ℝ) < 3
    norm_num
  rcases run_max (by decide : 0 < 2) (new 2 (by decide)) (Or.inl rfl) [] with ⟨-, -, -, hhold⟩
  apply hhold 3 [1] hage le_rfl
  intro u hu
  rw [List.mem_singleton.mp hu]
  norm_num

end MovingMax

end AudioProc
