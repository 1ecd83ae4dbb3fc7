import AudioProc.CappedBag
import AudioProc.Machine
import AudioProc.RtcHistogram
import Mathlib.Algebra.BigOperators.Ring.Finset
import Mathlib.Algebra.Order.BigOperators.Group.List

/-!
# Runs of RtcHistogram

The histogram is the capped bag of `AudioProc.CappedBag` over the clamped samples added
since it was last emptied (`Stores`, `capped_bag_of_run`). The counters of 32 bits do not
wrap as long as fewer than `2 ^ 31` samples are added in all.

When the range has at most 300 buckets, the underflow bucket included, the cap is never
reached and every sample is found in one of the contents the run empties, or in the last
one. `minSample_of_run` is the least bucket.
-/

namespace AudioProc

open CappedBag

namespace RtcHistogram

/-- The calls that change a histogram. -/
inductive Op where
  | add (sample : ℤ)
  | reset
  | getAndReset
deriving DecidableEq

def step (h : RtcHistogram) : Op → RtcHistogram
  | .add sample => h.add sample
  | .reset => h.reset
  | .getAndReset => h.getAndReset.2

/-- The samples added since the last emptying. -/
def addedStep (l : List ℤ) : Op → List ℤ
  | .add sample => l ++ [sample]
  | .reset => []
  | .getAndReset => []

def addedSinceEmptied (ops : List Op) : List ℤ := Machine.run addedStep [] ops

/-- How many `Add` calls there are. -/
def adds : List Op → ℕ
  | [] => 0
  | .add _ :: ops => adds ops + 1
  | _ :: ops => adds ops

@[simp] theorem adds_append (ops ops' : List Op) : adds (ops ++ ops') = adds ops + adds ops' := by
  induction ops with
  | nil => simp [adds]
  | cons op ops ih =>
      cases op with
      | add s =>
          simp only [List.cons_append, adds, ih]
          omega
      | reset => exact ih
      | getAndReset => exact ih

theorem length_added_le (ops : List Op) : (addedSinceEmptied ops).length ≤ adds ops := by
  induction ops using List.reverseRecOn with
  | nil => exact Nat.zero_le _
  | append_singleton ops op ih =>
      rw [addedSinceEmptied, Machine.run_concat, adds_append]
      cases op with
      | add s =>
          show (addedSinceEmptied ops ++ [s]).length ≤ adds ops + 1
          rw [List.length_append, List.length_singleton]
          exact Nat.succ_le_succ ih
      | reset => exact Nat.zero_le _
      | getAndReset => exact Nat.zero_le _

/-! ## The bag a histogram stands for -/

/-- The map holds the capped bag of `l`: the count of every value that is kept. -/
def Stores (m : Std.TreeMap ℤ ℤ) (l : List ℤ) : Prop :=
  ∀ b, m[b]? = if b ∈ kept kMaxSampleMapSize l then some (l.count b : ℤ) else none

theorem stores_empty : Stores ∅ [] := by
  intro b
  simp

namespace Stores

variable {m : Std.TreeMap ℤ ℤ} {l : List ℤ}

theorem mem_iff (h : Stores m l) (b : ℤ) : b ∈ m ↔ b ∈ kept kMaxSampleMapSize l := by
  rw [Std.TreeMap.mem_iff_isSome_getElem?, h b]
  split_ifs with hb
  · simp [hb]
  · simp [hb]

theorem getD (h : Stores m l) {b : ℤ} (hb : b ∈ kept kMaxSampleMapSize l) :
    m.getD b 0 = l.count b := by
  rw [Std.TreeMap.getD_eq_getD_getElem?, h b, if_pos hb]
  rfl

/-- The keys are the values kept, though sorted. -/
theorem keys_perm (h : Stores m l) : m.keys.Perm (kept kMaxSampleMapSize l) := by
  rw [List.perm_ext_iff_of_nodup Std.TreeMap.nodup_keys (nodup_kept l)]
  intro b
  rw [Std.TreeMap.mem_keys, h.mem_iff]

theorem size_eq (h : Stores m l) : m.size = (kept kMaxSampleMapSize l).length := by
  rw [← Std.TreeMap.length_keys, h.keys_perm.length_eq]

theorem isEmpty_iff (h : Stores m l) : m.isEmpty = true ↔ l = [] := by
  rw [Std.TreeMap.isEmpty_iff_forall_not_mem]
  constructor
  · intro hnone
    cases l with
    | nil => rfl
    | cons x l =>
        -- the first value offered is always kept
        exact absurd ((h.mem_iff x).mpr (by simp [kept, List.eraseDups_cons, kMaxSampleMapSize]))
          (hnone x)
  · rintro rfl b hb
    rw [h.mem_iff, kept_nil] at hb
    exact List.not_mem_nil hb

/-- The entries are the keys with their counts. -/
theorem toList_snd (h : Stores m l) :
    m.toList.map Prod.snd = m.keys.map fun b => (l.count b : ℤ) := by
  rw [← Std.TreeMap.map_fst_toList_eq_keys, List.map_map]
  apply List.map_congr_left
  rintro ⟨b, n⟩ hbn
  rw [Std.TreeMap.mem_toList_iff_getElem?_eq_some, h b] at hbn
  split_ifs at hbn
  exact (Option.some.inj hbn).symm

theorem sum_eq (h : Stores m l) :
    (m.toList.map Prod.snd).sum =
      ((kept kMaxSampleMapSize l).map fun b => (l.count b : ℤ)).sum := by
  rw [h.toList_snd]
  exact (h.keys_perm.map _).sum_eq

end Stores

theorem sum_kept_eq_total (l : List ℤ) :
    ((kept kMaxSampleMapSize l).map fun b => (l.count b : ℤ)).sum =
      (total kMaxSampleMapSize l : ℤ) := by
  rw [total, Nat.cast_list_sum, List.map_map]
  rfl

/-- The loop of `NumSamples` does not wrap when the sum is in range. -/
theorem foldl_wrapInt {ns : List ℤ} (hns : ∀ n ∈ ns, 0 ≤ n) {start : ℤ} (hstart : 0 ≤ start)
    (hsum : start + ns.sum < 2 ^ 31) :
    ns.foldl (fun acc n => wrapInt (acc + n)) start = start + ns.sum := by
  induction ns generalizing start with
  | nil => simp
  | cons n ns ih =>
      have hn : 0 ≤ n := hns n List.mem_cons_self
      have htail : ∀ n ∈ ns, 0 ≤ n := fun n' hn' => hns n' (List.mem_cons_of_mem n hn')
      have hrest : 0 ≤ ns.sum := List.sum_nonneg htail
      rw [List.sum_cons] at hsum ⊢
      rw [List.foldl_cons, wrapInt_of_lt (by omega) (by omega), ih htail (by omega) (by omega)]
      omega

/-- The sum of the counts of a map, as `NumSamples` computes it. -/
theorem Stores.foldl_eq {m : Std.TreeMap ℤ ℤ} {l : List ℤ} (h : Stores m l)
    (hl : l.length < 2 ^ 31) :
    m.foldl (fun n _ count => wrapInt (n + count)) 0 = (total kMaxSampleMapSize l : ℤ) := by
  have htotal : total kMaxSampleMapSize l ≤ l.length := total_le_length l
  have hsum := h.sum_eq.trans (sum_kept_eq_total l)
  have hnonneg : ∀ n ∈ m.toList.map Prod.snd, 0 ≤ n := by
    rw [h.toList_snd]
    intro n hn
    rcases List.mem_map.mp hn with ⟨b, -, rfl⟩
    exact Int.natCast_nonneg _
  have hloop := foldl_wrapInt hnonneg le_rfl (by rw [hsum]; omega)
  rw [Std.TreeMap.foldl_eq_foldl_toList, ← hsum]
  rw [List.foldl_map, zero_add] at hloop
  exact hloop

/-! ## The calls -/

theorem Stores.add {h : RtcHistogram} {l : List ℤ} (hs : Stores h.samples l)
    (hl : l.length + 1 < 2 ^ 31) (s : ℤ) :
    Stores (h.add s).samples (l ++ [h.clamp s]) := by
  have hcount : ∀ x : ℤ, l.count x + 1 < 2 ^ 31 := by
    intro x
    have := List.count_le_length (a := x) (l := l)
    omega
  have hsize := hs.size_eq
  intro b
  rcases kept_concat_cases kMaxSampleMapSize l (h.clamp s) with
    ⟨hx, hk⟩ | ⟨hx, hfull, hk⟩ | ⟨hx, hroom, hk⟩
  · -- a known bucket counts one more
    have hnum : h.numEvents (h.clamp s) = l.count (h.clamp s) := by
      rw [numEvents_eq_getD, hs.getD hx]
    have hwrap : wrapInt ((l.count (h.clamp s) : ℤ) + 1) = l.count (h.clamp s) + 1 := by
      have := hcount (h.clamp s)
      exact wrapInt_of_lt (by omega) (by omega)
    rw [samples_add (Or.inr ((hs.mem_iff _).mpr hx)), Std.TreeMap.getElem?_insert, hnum, hwrap, hk,
      List.count_append, List.count_singleton, hs b]
    by_cases hb : h.clamp s = b
    · subst hb
      simp [hx]
    · simp [hb]
  · -- the map is full and the bucket unknown: the sample is dropped
    have hdrop : (h.add s).samples = h.samples := by
      have hnew : h.clamp s ∉ h.info.samples := mt (hs.mem_iff _).mp hx
      rw [samples, RtcHistogram.add, if_pos ⟨hsize.trans hfull, hnew⟩]
      rfl
    rw [hdrop, hk, hs b, List.count_append, List.count_singleton]
    by_cases hb : h.clamp s = b
    · subst hb
      simp [hx]
    · simp [hb]
  · -- a new bucket
    have hnot : h.clamp s ∉ kept kMaxSampleMapSize l := mt mem_of_mem_kept hx
    have hnum : h.numEvents (h.clamp s) = 0 := by
      rw [numEvents_eq_getD, Std.TreeMap.getD_eq_getD_getElem?, hs, if_neg hnot]
      rfl
    have hwrap : wrapInt (0 + 1) = 1 := wrapInt_of_lt (by omega) (by omega)
    have hcap : h.samples.size ≠ kMaxSampleMapSize := by
      rw [hsize]
      exact Nat.ne_of_lt hroom
    rw [samples_add (Or.inl hcap), Std.TreeMap.getElem?_insert, hnum, hwrap, hk,
      List.count_append, List.count_singleton, hs b]
    by_cases hb : h.clamp s = b
    · subst hb
      simp [List.count_eq_zero_of_not_mem hx]
    · have hb' : ¬ b = h.clamp s := fun heq => hb heq.symm
      simp [hb, hb']

/-! ## Runs -/

/-- The clamping of a histogram with range `min` to `max`. -/
def clampTo (min max sample : ℤ) : ℤ := Max.max (Min.min sample max) (min - 1)

/-- `min - 1` is an `int` as well. -/
theorem clamp_eq {h : RtcHistogram} (hmin : -2 ^ 31 < h.min) (hmax : h.min < 2 ^ 31) (s : ℤ) :
    h.clamp s = clampTo h.min h.max s := by
  rw [clamp, clampTo, wrapInt_of_range (by omega) (by omega)]

/-- A histogram with range `min` to `max` that stores the clamped samples `l`. -/
structure Tracks (min max : ℤ) (h : RtcHistogram) (l : List ℤ) : Prop where
  min_eq : h.min = min
  max_eq : h.max = max
  stores : Stores h.samples (l.map (clampTo min max))

/-- Emptying the histogram, whichever way. -/
theorem Tracks.empty {min max : ℤ} {h : RtcHistogram} {l : List ℤ} (ht : Tracks min max h l) :
    Tracks min max h.reset [] ∧ Tracks min max h.getAndReset.2 [] := by
  refine ⟨⟨ht.min_eq, ht.max_eq, stores_empty⟩, ?_⟩
  unfold getAndReset
  split_ifs with hempty
  · -- nothing to hand out: the histogram stays as it is, and that is empty
    have hnil := ht.stores.isEmpty_iff.mp hempty
    have hs := ht.stores
    rw [hnil] at hs
    exact ⟨ht.min_eq, ht.max_eq, hs⟩
  · exact ⟨ht.min_eq, ht.max_eq, stores_empty⟩

/-- **One call**: the histogram goes on storing what was added since it was last emptied. -/
theorem Tracks.step {min max : ℤ} {h : RtcHistogram} {l : List ℤ} (hmin : -2 ^ 31 < min)
    (hmax : min < 2 ^ 31) (ht : Tracks min max h l) (hl : l.length + 1 < 2 ^ 31) (op : Op) :
    Tracks min max (h.step op) (addedStep l op) := by
  cases op with
  | add s =>
      have hclamp : h.clamp s = clampTo min max s := by
        rw [clamp_eq (ht.min_eq ▸ hmin) (ht.min_eq ▸ hmax), ht.min_eq, ht.max_eq]
      refine ⟨(add_min h s).trans ht.min_eq, (add_max h s).trans ht.max_eq, ?_⟩
      have hadd := ht.stores.add (by rwa [List.length_map]) s
      rw [hclamp] at hadd
      show Stores (h.add s).samples ((l ++ [s]).map (clampTo min max))
      rwa [List.map_append]
  | reset => exact ht.empty.1
  | getAndReset => exact ht.empty.2

theorem tracks_run (name : String) {min max : ℤ} (bucketCount : ℕ) (hmin : -2 ^ 31 < min)
    (hmax : min < 2 ^ 31) {ops : List Op} (hadds : adds ops < 2 ^ 31) :
    Tracks min max (Machine.run step (new name min max bucketCount) ops)
      (addedSinceEmptied ops) := by
  induction ops using List.reverseRecOn with
  | nil => exact ⟨rfl, rfl, stores_empty⟩
  | append_singleton ops op ih =>
      rw [adds_append] at hadds
      have hlength := length_added_le ops
      have hprefix := ih (by omega)
      rw [Machine.run_concat, addedSinceEmptied, Machine.run_concat]
      cases op with
      | add s =>
          have hone : adds [.add s] = 1 := rfl
          exact hprefix.step hmin hmax (by
            show (addedSinceEmptied ops).length + 1 < 2 ^ 31
            omega) (.add s)
      | reset => exact hprefix.empty.1
      | getAndReset => exact hprefix.empty.2

theorem minSample_eq (h : RtcHistogram) : h.minSample = h.samples.minKey?.getD (-1) := by
  rw [minSample, samples]
  cases h.info.samples.minKey? <;> rfl

/-- **The least bucket**: `MinSample` is the smallest value kept, or -1 without any. -/
theorem minSample_of_run (name : String) {min max : ℤ} (bucketCount : ℕ) (hmin : -2 ^ 31 < min)
    (hmax : min < 2 ^ 31) {ops : List Op} (hadds : adds ops < 2 ^ 31) :
    let found := kept kMaxSampleMapSize ((addedSinceEmptied ops).map (clampTo min max))
    let least := (Machine.run step (new name min max bucketCount) ops).minSample
    found = [] ∧ least = -1 ∨ least ∈ found ∧ ∀ b ∈ found, least ≤ b := by
  intro found least
  have ht : Tracks min max (Machine.run step (new name min max bucketCount) ops)
      (addedSinceEmptied ops) := tracks_run name bucketCount hmin hmax hadds
  have hs := ht.stores
  have hleast : least =
      (Machine.run step (new name min max bucketCount) ops).samples.minKey?.getD (-1) :=
    minSample_eq _
  cases hkey : (Machine.run step (new name min max bucketCount) ops).samples.minKey? with
  | none =>
      left
      rw [hkey] at hleast
      rw [Std.TreeMap.minKey?_eq_none_iff, hs.isEmpty_iff] at hkey
      refine ⟨?_, hleast⟩
      show kept kMaxSampleMapSize _ = []
      rw [hkey, kept_nil]
  | some k =>
      right
      rw [hkey] at hleast
      rw [Std.TreeMap.minKey?_eq_some_iff_mem_and_forall] at hkey
      rw [hleast]
      constructor
      · exact (hs.mem_iff k).mp hkey.1
      · intro b hb
        exact Int.isLE_compare.mp (hkey.2 b ((hs.mem_iff b).mpr hb))

/-! ## Nothing is lost in a small range -/

/-- A range of 300 buckets, the underflow bucket among them, never fills the map. -/
theorem length_eraseDups_clamped {min max : ℤ} (hle : min ≤ max) (hrange : max - min ≤ 298)
    (l : List ℤ) : (l.map (clampTo min max)).eraseDups.length ≤ kMaxSampleMapSize := by
  have hsub : (l.map (clampTo min max)).eraseDups.toFinset ⊆ Finset.Icc (min - 1) max := by
    intro b hb
    rw [List.mem_toFinset, List.mem_eraseDups] at hb
    rcases List.mem_map.mp hb with ⟨s, -, rfl⟩
    rw [Finset.mem_Icc, clampTo]
    omega
  have hcard := Finset.card_le_card hsub
  rw [List.toFinset_card_of_nodup (nodup_eraseDups _), Int.card_Icc] at hcard
  unfold kMaxSampleMapSize
  omega

/-- The number of samples a call takes out of the histogram: what `Reset` discards, or
what is counted in the snapshot of `GetAndReset`. -/
def taken (h : RtcHistogram) : Op → ℤ
  | .add _ => 0
  | .reset => h.numSamples
  | .getAndReset =>
    match h.getAndReset.1 with
    | none => 0
    | some info => info.samples.foldl (fun n _ count => wrapInt (n + count)) 0

/-- Either way of emptying takes all the samples. -/
theorem taken_eq {h : RtcHistogram} {op : Op} (hop : ∀ s, op ≠ .add s) :
    h.taken op = h.numSamples := by
  cases op with
  | add s => exact absurd rfl (hop s)
  | reset => rfl
  | getAndReset =>
      unfold taken getAndReset numSamples
      by_cases hempty : h.info.samples.isEmpty = true
      · -- an empty map has no entries to sum
        have hnil : h.info.samples.toList = [] := by
          rw [← List.isEmpty_iff, Std.TreeMap.isEmpty_toList]
          exact hempty
        simp [hempty, Std.TreeMap.foldl_eq_foldl_toList, hnil]
      · simp [hempty]

/-- Every sample is in a content taken out earlier or in the present one. -/
theorem taken_add_numSamples (name : String) {min max : ℤ} (bucketCount : ℕ)
    (hmin : -2 ^ 31 < min) (hle : min ≤ max) (hmax : max < 2 ^ 31) (hrange : max - min ≤ 298)
    {ops : List Op} (hadds : adds ops < 2 ^ 31) :
    (Machine.observe step taken (new name min max bucketCount) ops).sum +
      (Machine.run step (new name min max bucketCount) ops).numSamples = adds ops := by
  -- in a small range the number of samples is the number of calls since the last emptying
  have hnum : ∀ ops : List Op, adds ops < 2 ^ 31 →
      (Machine.run step (new name min max bucketCount) ops).numSamples =
        (addedSinceEmptied ops).length := by
    intro ops hadds
    have ht : Tracks min max (Machine.run step (new name min max bucketCount) ops)
        (addedSinceEmptied ops) := tracks_run name bucketCount hmin (by omega) hadds
    have hlength := length_added_le ops
    have hloop := ht.stores.foldl_eq (by rw [List.length_map]; omega)
    rw [total_eq_length (length_eraseDups_clamped hle hrange _), List.length_map] at hloop
    exact hloop
  induction ops using List.reverseRecOn with
  | nil => rfl
  | append_singleton ops op ih =>
      have hadds' := hadds
      rw [adds_append] at hadds'
      have hsofar := ih (by omega)
      rw [hnum ops (by omega)] at hsofar
      rw [hnum _ hadds, Machine.observe_append, List.sum_append, adds_append,
        Machine.observe_cons, Machine.observe_nil, List.sum_cons, List.sum_nil,
        addedSinceEmptied, Machine.run_concat]
      by_cases hop : ∃ s, op = .add s
      · rcases hop with ⟨s, rfl⟩
        show _ + (0 + 0) + (((addedSinceEmptied ops) ++ [s]).length : ℤ) =
          ((adds ops + 1 : ℕ) : ℤ)
        rw [List.length_append, List.length_singleton]
        omega
      · -- an emptying moves the samples from the second summand to the first
        have hop' : ∀ s, op ≠ .add s := fun s hs => hop ⟨s, hs⟩
        rw [taken_eq hop', hnum ops (by omega)]
        cases op with
        | add s => exact absurd rfl (hop' s)
        | reset =>
            show _ + ((addedSinceEmptied ops).length + 0 : ℤ) + 0 = ((adds ops + 0 : ℕ) : ℤ)
            omega
        | getAndReset =>
            show _ + ((addedSinceEmptied ops).length + 0 : ℤ) + 0 = ((adds ops + 0 : ℕ) : ℤ)
            omega

/-- **The histogram is a capped bag**: with `l` the clamped samples added since it was last
emptied and `F` the first 300 distinct ones, each value of `F` has its count in `l`, every
other one 0, `NumSamples` is the sum of these counts, and `GetAndReset` hands out exactly
them, or null when there are none, and leaves the histogram empty. With at most 300 buckets
no sample is lost. -/
theorem capped_bag_of_run (name : String) {min max : ℤ} (bucketCount : ℕ)
    (hmin : -2 ^ 31 < min) (hle : min ≤ max) (hmax : max < 2 ^ 31) {ops : List Op}
    (hadds : adds ops < 2 ^ 31) :
    let clamp := fun s : ℤ => Max.max (Min.min s max) (min - 1)
    let l := (addedSinceEmptied ops).map clamp
    let F := l.eraseDups.take 300
    let h := Machine.run step (new name min max bucketCount) ops
    (∀ b, h.numEvents b = if b ∈ F then (l.count b : ℤ) else 0) ∧
    h.numSamples = (F.map fun b => (l.count b : ℤ)).sum ∧
    (h.getAndReset.1 = none ↔ l = []) ∧
    (∀ info, h.getAndReset.1 = some info →
      ∀ b, info.samples[b]? = if b ∈ F then some (l.count b : ℤ) else none) ∧
    ((∀ b, h.getAndReset.2.numEvents b = 0) ∧ h.getAndReset.2.numSamples = 0) ∧
    (max - min ≤ 298 →
      (Machine.observe step taken (new name min max bucketCount) ops).sum + h.numSamples =
        adds ops) := by
  intro clamp l F h
  -- the map stores the clamped samples since the histogram was last emptied
  have ht : Tracks min max h (addedSinceEmptied ops) :=
    tracks_run name bucketCount hmin (by omega) hadds
  have hs : Stores h.samples l := ht.stores
  have hlength : l.length < 2 ^ 31 := by
    have := length_added_le ops
    rw [List.length_map]
    omega
  -- emptying it keeps the invariant, of no samples at all
  have hempty : Stores h.getAndReset.2.samples [] := ht.empty.2.stores
  refine ⟨?_, ?_, ?_, ?_, ⟨?_, ?_⟩, ?_⟩
  · intro b
    rw [numEvents_eq_getD, Std.TreeMap.getD_eq_getD_getElem?, hs b]
    show (if b ∈ F then some (l.count b : ℤ) else none).getD 0 = _
    split_ifs <;> rfl
  · exact (hs.foldl_eq hlength).trans (sum_kept_eq_total l).symm
  · rw [← hs.isEmpty_iff]
    unfold getAndReset samples
    split_ifs with hnone
    · simp [hnone]
    · simp [hnone]
  · intro info hinfo
    unfold getAndReset at hinfo
    split_ifs at hinfo
    obtain rfl : h.info = info := Option.some.inj hinfo
    exact hs
  · intro b
    rw [numEvents_eq_getD, Std.TreeMap.getD_eq_getD_getElem?, hempty b]
    simp
  · exact (hempty.foldl_eq (by simp)).trans (by simp)
  · intro hrange
    exact taken_add_numSamples name bucketCount hmin hle hmax hrange hadds

/-- A histogram of percentages, emptied once: all three samples are accounted for. -/
theorem capped_bag_of_run_percent :
    (Machine.observe step taken (new "likelihood" 0 100 101)
        [.add 7, .add 250, .getAndReset, .add (-3)]).sum +
      (Machine.run step (new "likelihood" 0 100 101)
        [.add 7, .add 250, .getAndReset, .add (-3)]).numSamples = 3 := by
  have hall := @capped_bag_of_run "likelihood" 0 100 101 (by decide) (by decide) (by decide)
    [.add 7, .add 250, .getAndReset, .add (-3)] (by decide)
  exact hall.2.2.2.2.2 (by decide)

end RtcHistogram

end AudioProc
