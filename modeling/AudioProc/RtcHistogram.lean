import Std.Data.TreeMap.Lemmas
import Mathlib.Data.Int.ConditionallyCompleteOrder
import Mathlib.Data.Int.Interval
import Mathlib.Order.ConditionallyCompleteLattice.Basic
import Mathlib.Order.Interval.Finset.Basic

/-!
# RtcHistogram

The capped histogram of `common_audio/rtc_histogram`. `int` is 32 bits wide, so a counter
that is incremented often enough wraps; `samples` is the `std::map<int, int>`.
-/

namespace AudioProc

/-- The value of an `int` after 32-bit arithmetic. -/
def wrapInt (n : ℤ) : ℤ := Int.bmod n (2 ^ 32)

theorem wrapInt_of_range {n : ℤ} (h₀ : -2 ^ 31 ≤ n) (h : n < 2 ^ 31) : wrapInt n = n := by
  apply Int.bmod_eq_of_le <;> omega

theorem wrapInt_of_lt {n : ℤ} (h₀ : 0 ≤ n) (h : n < 2 ^ 31) : wrapInt n = n :=
  wrapInt_of_range (by omega) h

/-- Limit for the maximum number of sample values that can be stored. -/
def kMaxSampleMapSize : ℕ := 300

structure SampleInfo where
  name : String
  min : ℤ
  max : ℤ
  bucketCount : ℕ
  samples : Std.TreeMap ℤ ℤ

structure RtcHistogram where
  min : ℤ
  max : ℤ
  info : SampleInfo

namespace RtcHistogram

/-- `RtcHistogram::RtcHistogram` -/
def new (name : String) (min max : ℤ) (bucketCount : ℕ) : RtcHistogram where
  min := min
  max := max
  info := { name, min, max, bucketCount, samples := ∅ }

/-- The bucket of a sample: above `max` it counts as `max`, below `min` in the underflow
bucket `min - 1`. -/
def clamp (h : RtcHistogram) (sample : ℤ) : ℤ :=
  Max.max (Min.min sample h.max) (wrapInt (h.min - 1))

/-- `RtcHistogram::Add` -/
def add (h : RtcHistogram) (sample : ℤ) : RtcHistogram :=
  let sample := h.clamp sample
  if h.info.samples.size = kMaxSampleMapSize ∧ sample ∉ h.info.samples then
    h
  else
    { h with info := { h.info with
        samples := h.info.samples.insert sample
          (wrapInt (h.info.samples.getD sample 0 + 1)) } }

/-- `RtcHistogram::GetAndReset`: the copy handed out (null when there is nothing to hand
out) and the emptied histogram. -/
def getAndReset (h : RtcHistogram) : Option SampleInfo × RtcHistogram :=
  if h.info.samples.isEmpty then
    (none, h)
  else
    (some h.info, { h with info := { h.info with samples := ∅ } })

/-- `RtcHistogram::Reset` -/
def reset (h : RtcHistogram) : RtcHistogram :=
  { h with info := { h.info with samples := ∅ } }

/-- `RtcHistogram::NumEvents` -/
def numEvents (h : RtcHistogram) (sample : ℤ) : ℤ :=
  match h.info.samples[sample]? with
  | none => 0
  | some n => n

/-- `RtcHistogram::NumSamples` -/
def numSamples (h : RtcHistogram) : ℤ :=
  h.info.samples.foldl (fun n _ count => wrapInt (n + count)) 0

/-- `RtcHistogram::MinSample` -/
def minSample (h : RtcHistogram) : ℤ :=
  match h.info.samples.minKey? with
  | none => -1
  | some sample => sample

/-- `RtcHistogram::Samples` -/
def samples (h : RtcHistogram) : Std.TreeMap ℤ ℤ := h.info.samples

/-! ## What an `Add` counts -/

theorem numEvents_eq_getD (h : RtcHistogram) (b : ℤ) :
    h.numEvents b = h.samples.getD b 0 := by
  rw [numEvents, samples, Std.TreeMap.getD_eq_getD_getElem?]
  cases h.info.samples[b]? <;> rfl

@[simp] theorem numEvents_new (name : String) (min max : ℤ) (bucketCount : ℕ) (b : ℤ) :
    (new name min max bucketCount).numEvents b = 0 := by
  simp [numEvents, new]

@[simp] theorem add_min (h : RtcHistogram) (s : ℤ) : (h.add s).min = h.min := by
  simp only [add]
  split_ifs <;> rfl

@[simp] theorem add_max (h : RtcHistogram) (s : ℤ) : (h.add s).max = h.max := by
  simp only [add]
  split_ifs <;> rfl

/-- A sample the cap does not reject is counted in its bucket and nowhere else. -/
theorem samples_add {h : RtcHistogram} {s : ℤ}
    (hcap : h.samples.size ≠ kMaxSampleMapSize ∨ h.clamp s ∈ h.samples) :
    (h.add s).samples =
      h.samples.insert (h.clamp s) (wrapInt (h.numEvents (h.clamp s) + 1)) := by
  have hkeep : ¬ (h.info.samples.size = kMaxSampleMapSize ∧ h.clamp s ∉ h.info.samples) := by
    rintro ⟨hsize, hnew⟩
    rcases hcap with h' | h'
    · exact h' hsize
    · exact hnew h'
  rw [numEvents_eq_getD]
  simp only [add, if_neg hkeep, samples]

theorem numEvents_add {h : RtcHistogram} {s : ℤ}
    (hcap : h.samples.size ≠ kMaxSampleMapSize ∨ h.clamp s ∈ h.samples) (b : ℤ) :
    (h.add s).numEvents b =
      if h.clamp s = b then wrapInt (h.numEvents b + 1) else h.numEvents b := by
  simp only [numEvents_eq_getD, samples_add hcap, Std.TreeMap.getD_insert,
    Std.LawfulEqCmp.compare_eq_iff_eq]
  split_ifs with hb
  · rw [hb]
  · rfl

/-- The map holds at most one entry for each integer of a range its keys lie in. -/
theorem size_le_card {h : RtcHistogram} {lo hi : ℤ}
    (hkeys : ∀ b ∈ h.samples, lo ≤ b ∧ b ≤ hi) :
    h.samples.size ≤ (Finset.Icc lo hi).card := by
  have hsub : h.samples.keys.toFinset ⊆ Finset.Icc lo hi := by
    intro b hb
    rw [List.mem_toFinset] at hb
    exact Finset.mem_Icc.mpr (hkeys b (Std.TreeMap.mem_of_mem_keys hb))
  calc h.samples.size = h.samples.keys.length := Std.TreeMap.length_keys.symm
    _ = h.samples.keys.toFinset.card :=
      (List.toFinset_card_of_nodup Std.TreeMap.nodup_keys).symm
    _ ≤ (Finset.Icc lo hi).card := Finset.card_le_card hsub

end RtcHistogram

end AudioProc
