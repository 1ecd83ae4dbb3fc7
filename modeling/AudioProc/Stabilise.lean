import AudioProc.Refinement

/-!
# Alternating calls drain the backlog

However a run has gone, strictly alternating calls bring the render queue back to being
empty between pairs. A pair renders one value and captures one, so by itself it keeps the
backlog; but while the backlog lasts the drift counter moves up by one at every pair and
at `N` a value is discarded. `rank` counts the pairs that are still needed: `N` for every
waiting value after the first, and what is missing from the counter. It is at most
`N * N`, every pair lowers it (`rank_pair_le`), and at 0 the queue is settled.
-/

namespace AudioProc

universe u

namespace Pairing

variable {N : ℕ} {α : Type u}

/-- A render call and a capture call. -/
def pair (p : Pairing N α) (x : α) : Pairing N α := (p.render x).capture

/-- Nothing waits and no flush is pending. -/
def Settled (p : Pairing N α) : Prop := p.first = false ∧ p.backlog = []

/-- The number of alternating pairs that may pass before the queue is settled. -/
def rank (p : Pairing N α) : ℕ :=
  if p.first then 1
  else if p.backlog = [] then 0
  else N * (p.backlog.length - 1) + (N - p.sinceEmpty) + 1

theorem rank_of_first {p : Pairing N α} (h : p.first = true) : p.rank = 1 :=
  if_pos h

theorem rank_of_settled {p : Pairing N α} (h : p.Settled) : p.rank = 0 := by
  rw [rank, if_neg (by simp [h.1]), if_pos h.2]

theorem rank_of_backlog {p : Pairing N α} (hfirst : p.first = false) (h : p.backlog ≠ []) :
    p.rank = N * (p.backlog.length - 1) + (N - p.sinceEmpty) + 1 := by
  rw [rank, if_neg (by simp [hfirst]), if_neg h]

theorem settled_of_rank_eq_zero {p : Pairing N α} (h : p.rank = 0) : p.Settled := by
  by_cases hfirst : p.first = true
  · rw [rank_of_first hfirst] at h
    omega
  · rw [Bool.not_eq_true] at hfirst
    by_cases hempty : p.backlog = []
    · exact ⟨hfirst, hempty⟩
    · rw [rank_of_backlog hfirst hempty] at h
      omega

/-- The backlog and the counter of a settled or waiting queue after a pair. -/
theorem pair_of_not_first {p : Pairing N α} (h : p.first = false) (x : α) :
    (p.pair x).first = false ∧ (p.pair x).backlog = (p.render x).backlog.tail ∧
      (p.pair x).sinceEmpty = (p.render x).sinceEmpty := by
  refine ⟨rfl, ?_, rfl⟩
  simp [pair, capture, h]

theorem rank_pair_of_length_le {p : Pairing N α} {n c : ℕ} {x : α} (hfirst : p.first = false)
    (hlen : (p.pair x).backlog.length ≤ n) (hc : (p.pair x).sinceEmpty = c) :
    (p.pair x).rank ≤ if n = 0 then 0 else N * (n - 1) + (N - c) + 1 := by
  have hfirst' := (pair_of_not_first hfirst x).1
  by_cases hempty : (p.pair x).backlog = []
  · rw [rank_of_settled ⟨hfirst', hempty⟩]
    exact Nat.zero_le _
  · have hpos : 0 < (p.pair x).backlog.length := List.length_pos_iff.mpr hempty
    have hmul : N * ((p.pair x).backlog.length - 1) ≤ N * (n - 1) :=
      Nat.mul_le_mul_left N (by omega)
    rw [rank_of_backlog hfirst' hempty, hc, if_neg (by omega)]
    omega

/-- **One pair** lowers the rank. -/
theorem rank_pair_le (hN : 0 < N) {p : Pairing N α} (hp : p.Wf) (x : α) :
    (p.pair x).rank ≤ p.rank - 1 := by
  by_cases hfirst : p.first = true
  · -- the flush of the first capture settles the queue
    have hsettled : (p.pair x).Settled := by
      refine ⟨rfl, ?_⟩
      simp [pair, capture, hfirst]
    rw [rank_of_settled hsettled]
    exact Nat.zero_le _
  · rw [Bool.not_eq_true] at hfirst
    rcases pair_of_not_first hfirst x with ⟨-, hback, hcount⟩
    have hlen := hp.length_le
    rcases p.render_cases x with ⟨hempty, h⟩ | ⟨hne, hold, h⟩ | ⟨hne, hyoung, h⟩
    · -- nothing waits: the pair renders and captures the same value
      have hnone : (p.pair x).backlog.length ≤ 0 := by
        rw [hback, h, DropQueue.push_of_lt (by simpa using hN)]
        simp
      have hrank := rank_pair_of_length_le (x := x) hfirst hnone rfl
      rw [if_pos rfl] at hrank
      exact hrank.trans (Nat.zero_le _)
    · -- drift: one waiting value is discarded and the counter restarts
      have hpos : 0 < p.backlog.length := List.length_pos_iff.mpr hne
      have hcount' : (p.pair x).sinceEmpty = 1 := by rw [hcount, h]
      have hless : (p.pair x).backlog.length ≤ p.backlog.length - 1 := by
        rw [hback, h, DropQueue.push_of_lt (by rw [List.length_tail]; omega)]
        simp
      have hrank := rank_pair_of_length_le hfirst hless hcount'
      rw [rank_of_backlog hfirst hne]
      split_ifs at hrank with hlast
      · omega
      · have hsplit : N * (p.backlog.length - 1) = N * (p.backlog.length - 1 - 1) + N := by
          rw [← Nat.mul_succ]
          congr 1
          omega
        omega
    · -- the backlog stays, or is one shorter when the queue was full; the counter moves
      have hpos : 0 < p.backlog.length := List.length_pos_iff.mpr hne
      have hcount' : (p.pair x).sinceEmpty = p.sinceEmpty + 1 := by rw [hcount, h]
      have hkeep : (p.pair x).backlog.length ≤ p.backlog.length := by
        rw [hback, h, List.length_tail, DropQueue.length_push hN hlen]
        omega
      have hrank := rank_pair_of_length_le hfirst hkeep hcount'
      rw [rank_of_backlog hfirst hne]
      rw [if_neg (by omega)] at hrank
      omega

theorem rank_le (hN : 0 < N) {p : Pairing N α} (hp : p.Wf) : p.rank ≤ N * N := by
  have hsquare : 1 ≤ N * N := Nat.mul_pos hN hN
  by_cases hfirst : p.first = true
  · rw [rank_of_first hfirst]
    exact hsquare
  · rw [Bool.not_eq_true] at hfirst
    by_cases hempty : p.backlog = []
    · rw [rank_of_settled ⟨hfirst, hempty⟩]
      exact Nat.zero_le _
    · have hcount := hp.counter_pos hempty
      have hlen : N * (p.backlog.length - 1) ≤ N * (N - 1) :=
        Nat.mul_le_mul_left N (Nat.sub_le_sub_right hp.length_le 1)
      have hsplit : N * N = N * (N - 1) + N := by
        rw [← Nat.mul_succ]
        congr 1
        omega
      rw [rank_of_backlog hfirst hempty]
      omega

/-- **`N * N` pairs settle** every well-formed queue. -/
theorem settled_of_pairs (hN : 0 < N) {p : Pairing N α} (hp : p.Wf) {xs : List α}
    (hlong : N * N ≤ xs.length) : (Machine.run pair p xs).Settled := by
  have hkeep : ∀ (q : Pairing N α) (x : α), q.Wf → (q.pair x).Wf := by
    intro q x hq
    exact (hq.render hN x).capture
  have hless : ∀ (q : Pairing N α) (x : α), q.Wf → (q.pair x).rank ≤ q.rank - 1 := by
    intro q x hq
    exact rank_pair_le hN hq x
  have hrank := Machine.run_rank hkeep hless hp xs
  have hbound := rank_le hN hp
  apply settled_of_rank_eq_zero
  omega

/-- A settled queue stays settled over a pair. -/
theorem Settled.pair (hN : 0 < N) {p : Pairing N α} (hp : p.Settled) (x : α) :
    (p.pair x).Settled := by
  have hrank := rank_pair_le hN (wf_of_empty hp.2) x
  rw [rank_of_settled hp] at hrank
  exact settled_of_rank_eq_zero (Nat.le_zero.mp hrank)

/-- On a settled queue a render call leaves exactly its own value. -/
theorem Settled.next_render (hN : 0 < N) {p : Pairing N α} (hp : p.Settled) (x : α) :
    (p.render x).next = some x := by
  have hrender : p.render x = { p with backlog := DropQueue.push N [] x, sinceEmpty := 1 } := by
    rcases p.render_cases x with ⟨-, h⟩ | ⟨hne, -⟩ | ⟨hne, -⟩
    · exact h
    · exact absurd hp.2 hne
    · exact absurd hp.2 hne
  rw [hrender, DropQueue.push_of_lt (by simpa using hN)]
  simp [next, hp.1]

end Pairing

namespace ResidualEchoDetector

variable {F : Type u} [FloatMath F]

theorem pairing_run_alternating (d : ResidualEchoDetector F)
    (pairs : List (List F × List F)) :
    (Machine.run step d (alternating pairs)).pairing =
      Machine.run Pairing.pair d.pairing (pairs.map fun p => power p.1) := by
  induction pairs generalizing d with
  | nil => rfl
  | cons p pairs ih =>
      rw [alternating, List.flatMap_cons, Machine.run_append, ← alternating, ih,
        pairing_run_from]
      rfl

/-- **The pairing is self-stabilising**: after any run followed by at least 900 alternating
pairs the render buffer is empty, and a capture call that follows the next render call
pops exactly the power of that call's frame. -/
theorem pairing_stabilises (calls : List (Call F)) (pairs : List (List F × List F))
    (hlong : 900 ≤ pairs.length) (x : List F) :
    (run (calls ++ alternating pairs)).renderBuffer.length = 0 ∧
      ((run (calls ++ alternating pairs)).analyzeRenderAudio x).nextRenderPower =
        some (power x) := by
  have hN : 0 < kRenderBufferSize := by decide
  have hwf : (run calls).pairing.Wf := by
    rw [pairing_run]
    exact Pairing.wf_run hN _
  have hsettled : (run (calls ++ alternating pairs)).pairing.Settled := by
    rw [run, Machine.run_append, pairing_run_alternating]
    apply Pairing.settled_of_pairs hN hwf
    rw [List.length_map]
    exact hlong
  constructor
  · rw [length_eq_zero_iff]
    exact hsettled.2
  · rw [nextRenderPower_eq, pairing_analyzeRenderAudio]
    exact hsettled.next_render hN (power x)

/-- After the flush of the first capture call 25 render calls are waiting; 900 silent pairs
drain them. -/
theorem pairing_stabilises_after_render :
    let calls : List (Call Float32) :=
      .analyzeCaptureAudio [1] :: List.replicate 25 (.analyzeRenderAudio [1])
    let pairs : List (List Float32 × List Float32) := List.replicate 900 ([], [])
    ((run (calls ++ alternating pairs)).analyzeRenderAudio [1]).nextRenderPower =
      some (power [1]) := by
  intro calls pairs
  have hlong : 900 ≤ pairs.length := by
    rw [List.length_replicate]
  exact (pairing_stabilises calls pairs hlong [1]).2

end ResidualEchoDetector

end AudioProc
