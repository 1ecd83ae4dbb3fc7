import AudioProc.DropQueue
import AudioProc.Machine
import Mathlib.Tactic.Common

/-!
# Pairing render and capture calls

What the buffering side of the detector is for, without its arrays: render values wait in
a bounded queue until a capture call takes one each. `Pairing N α` is that queue with the
two rules around it, over values of any type `α`:

* the first capture call empties the queue, so that a call starts with nothing waiting;
* a counter of render calls since the queue was last found empty detects that renders
  come in faster than captures; at `N` calls one value is discarded.

No decision looks at a value: `map` commutes with every operation. `Wf` collects what
holds of every reachable queue.
-/

namespace AudioProc

universe u v

/-- The queue of render values between the two sides, oldest first. -/
structure Pairing (N : ℕ) (α : Type u) where
  first : Bool
  backlog : List α
  sinceEmpty : ℕ

namespace Pairing

variable {N : ℕ} {α : Type u} {β : Type v}

/-- No call was made yet. -/
def new : Pairing N α where
  first := true
  backlog := []
  sinceEmpty := 0

/-- The drift rule applied before a render value is queued. -/
def correct (p : Pairing N α) : Pairing N α :=
  if p.backlog = [] then { p with sinceEmpty := 0 }
  else if N ≤ p.sinceEmpty then { p with backlog := p.backlog.tail, sinceEmpty := 0 }
  else p

/-- A render call. -/
def render (p : Pairing N α) (x : α) : Pairing N α :=
  { p.correct with
    backlog := DropQueue.push N p.correct.backlog x
    sinceEmpty := p.correct.sinceEmpty + 1 }

/-- The value a capture call gets. -/
def next (p : Pairing N α) : Option α :=
  if p.first then none else p.backlog.head?

/-- A capture call. -/
def capture (p : Pairing N α) : Pairing N α where
  first := false
  backlog := if p.first then [] else p.backlog.tail
  sinceEmpty := p.sinceEmpty

/-- A new call starts: what waits is dropped, the rest is kept. -/
def restart (p : Pairing N α) : Pairing N α :=
  { p with backlog := [] }

/-- The same queue with other values. -/
def map (f : α → β) (p : Pairing N α) : Pairing N β where
  first := p.first
  backlog := p.backlog.map f
  sinceEmpty := p.sinceEmpty

/-! ## The three cases of a render call -/

theorem correct_of_empty {p : Pairing N α} (h : p.backlog = []) :
    p.correct = { p with sinceEmpty := 0 } :=
  if_pos h

theorem correct_of_drift {p : Pairing N α} (h : p.backlog ≠ []) (hN : N ≤ p.sinceEmpty) :
    p.correct = { p with backlog := p.backlog.tail, sinceEmpty := 0 } := by
  rw [correct, if_neg h, if_pos hN]

theorem correct_of_young {p : Pairing N α} (h : p.backlog ≠ []) (hN : p.sinceEmpty < N) :
    p.correct = p := by
  rw [correct, if_neg h, if_neg (Nat.not_le.mpr hN)]

@[simp] theorem correct_first (p : Pairing N α) : p.correct.first = p.first := by
  unfold correct
  split_ifs <;> rfl

@[simp] theorem render_first (p : Pairing N α) (x : α) : (p.render x).first = p.first :=
  p.correct_first

/-- What a render call can do to the queue, full buffers aside: start from empty, discard
the oldest value first, or just append. -/
theorem render_cases (p : Pairing N α) (x : α) :
    (p.backlog = [] ∧ p.render x =
      { p with backlog := DropQueue.push N [] x, sinceEmpty := 1 }) ∨
    (p.backlog ≠ [] ∧ N ≤ p.sinceEmpty ∧ p.render x =
      { p with backlog := DropQueue.push N p.backlog.tail x, sinceEmpty := 1 }) ∨
    (p.backlog ≠ [] ∧ p.sinceEmpty < N ∧ p.render x =
      { p with backlog := DropQueue.push N p.backlog x, sinceEmpty := p.sinceEmpty + 1 }) := by
  by_cases hempty : p.backlog = []
  · left
    refine ⟨hempty, ?_⟩
    simp [render, correct_of_empty hempty, hempty]
  · -- values wait: only the counter decides whether the oldest one goes
    right
    rcases Nat.lt_or_ge p.sinceEmpty N with hyoung | hold
    · right
      refine ⟨hempty, hyoung, ?_⟩
      simp [render, correct_of_young hempty hyoung]
    · left
      refine ⟨hempty, hold, ?_⟩
      simp [render, correct_of_drift hempty hold]

/-- What waits after a render call waited before, or is the value rendered. -/
theorem mem_render {p : Pairing N α} {x y : α} (h : y ∈ (p.render x).backlog) :
    y ∈ p.backlog ∨ y = x := by
  have hpush : ∀ q : List α, y ∈ DropQueue.push N q x → y ∈ q ∨ y = x := by
    intro q hq
    unfold DropQueue.push at hq
    split_ifs at hq with hlen
    · simpa using hq
    · -- a full queue loses its oldest value, the others waited before
      rcases List.mem_append.mp hq with htail | hnew
      · exact Or.inl (List.mem_of_mem_tail htail)
      · exact Or.inr (List.mem_singleton.mp hnew)
  rcases p.render_cases x with ⟨hempty, hrender⟩ | ⟨-, -, hrender⟩ | ⟨-, -, hrender⟩
  · rw [hrender] at h
    exact Or.inr ((hpush [] h).resolve_left List.not_mem_nil)
  · rw [hrender] at h
    exact (hpush _ h).imp_left List.mem_of_mem_tail
  · rw [hrender] at h
    exact hpush _ h

theorem render_backlog_ne_nil (p : Pairing N α) (x : α) : (p.render x).backlog ≠ [] :=
  DropQueue.push_ne_nil _ x

/-! ## Values are never looked at -/

theorem map_correct (f : α → β) (p : Pairing N α) : (p.map f).correct = p.correct.map f := by
  unfold correct
  by_cases hempty : p.backlog = []
  · simp [map, hempty]
  · by_cases hold : N ≤ p.sinceEmpty
    · simp [map, hempty, hold]
    · simp [map, hempty, hold]

theorem map_render (f : α → β) (p : Pairing N α) (x : α) :
    (p.map f).render (f x) = (p.render x).map f := by
  simp only [render, map_correct]
  simp [map, DropQueue.map_push]

theorem map_next (f : α → β) (p : Pairing N α) : (p.map f).next = p.next.map f := by
  unfold next
  cases hfirst : p.first with
  | true => simp [map, hfirst]
  | false => simp [map, hfirst]

theorem map_capture (f : α → β) (p : Pairing N α) : (p.map f).capture = p.capture.map f := by
  cases hfirst : p.first with
  | true => simp [capture, map, hfirst]
  | false => simp [capture, map, hfirst]

/-! ## Runs -/

/-- What happens to the queue. -/
inductive Event (α : Type u) where
  | render (x : α)
  | capture
  | restart

namespace Event

/-- The values of the render calls, in order. -/
def renders : List (Event α) → List α
  | [] => []
  | render x :: es => x :: renders es
  | _ :: es => renders es

/-- The number of capture calls. -/
def captures : List (Event α) → ℕ
  | [] => 0
  | capture :: es => captures es + 1
  | _ :: es => captures es

@[simp] theorem renders_append (es fs : List (Event α)) :
    renders (es ++ fs) = renders es ++ renders fs := by
  induction es with
  | nil => rfl
  | cons e es ih => cases e <;> simp [renders, ih]

@[simp] theorem captures_append (es fs : List (Event α)) :
    captures (es ++ fs) = captures es + captures fs := by
  induction es with
  | nil => simp [captures]
  | cons e es ih =>
      cases e with
      | render x => exact ih
      | capture =>
          rw [List.cons_append, captures, captures, ih]
          omega
      | restart => exact ih

@[simp] theorem renders_render (x : α) : renders [render x] = [x] := rfl

@[simp] theorem renders_capture : renders [(capture : Event α)] = [] := rfl

@[simp] theorem captures_render (x : α) : captures [render x] = 0 := rfl

@[simp] theorem captures_restart : captures [(restart : Event α)] = 0 := rfl

@[simp] theorem captures_capture : captures [(capture : Event α)] = 1 := rfl

end Event

/-- One event. -/
def step (p : Pairing N α) : Event α → Pairing N α
  | .render x => p.render x
  | .capture => p.capture
  | .restart => p.restart

/-- The queue after a sequence of events. -/
def run (es : List (Event α)) : Pairing N α :=
  Machine.run step new es

@[simp] theorem run_nil : (run [] : Pairing N α) = new := rfl

theorem run_concat (es : List (Event α)) (e : Event α) :
    (run (es ++ [e]) : Pairing N α) = (run es).step e :=
  Machine.run_concat step new es e

/-- What holds of every reachable queue: it fits its capacity, and while values wait the
drift counter is in `1..N`. -/
structure Wf (p : Pairing N α) : Prop where
  length_le : p.backlog.length ≤ N
  counter_pos : p.backlog ≠ [] → 1 ≤ p.sinceEmpty
  counter_le : p.backlog ≠ [] → p.sinceEmpty ≤ N

theorem wf_of_empty {p : Pairing N α} (h : p.backlog = []) : p.Wf where
  length_le := by
    rw [h]
    exact Nat.zero_le N
  counter_pos := fun hne => absurd h hne
  counter_le := fun hne => absurd h hne

theorem Wf.render (hN : 0 < N) {p : Pairing N α} (hp : p.Wf) (x : α) : (p.render x).Wf := by
  have hpush : ∀ q : List α, q.length ≤ N → (DropQueue.push N q x).length ≤ N := by
    intro q hq
    rw [DropQueue.length_push hN hq]
    exact Nat.min_le_right _ _
  have hlen := hp.length_le
  rcases p.render_cases x with ⟨hempty, h⟩ | ⟨hne, hold, h⟩ | ⟨hne, hyoung, h⟩
  · rw [h]
    exact ⟨hpush [] (Nat.zero_le N), fun _ => le_rfl, fun _ => hN⟩
  · -- the discarded value makes room and the counter restarts at 1
    rw [h]
    refine ⟨hpush _ ?_, fun _ => le_rfl, fun _ => hN⟩
    rw [List.length_tail]
    omega
  · rw [h]
    exact ⟨hpush _ hlen, fun _ => Nat.succ_pos _, fun _ => hyoung⟩

theorem Wf.capture {p : Pairing N α} (hp : p.Wf) : p.capture.Wf := by
  by_cases hfirst : p.first = true
  · -- the flush leaves nothing, so the counter is unconstrained
    apply wf_of_empty
    simp [Pairing.capture, hfirst]
  · have hback : p.capture.backlog = p.backlog.tail := by simp [Pairing.capture, hfirst]
    have hne : p.capture.backlog ≠ [] → p.backlog ≠ [] := by
      intro h hnil
      rw [hback, hnil] at h
      exact h rfl
    refine ⟨?_, fun h => hp.counter_pos (hne h), fun h => hp.counter_le (hne h)⟩
    have hlen := hp.length_le
    rw [hback, List.length_tail]
    omega

theorem Wf.step (hN : 0 < N) {p : Pairing N α} (hp : p.Wf) (e : Event α) : (p.step e).Wf := by
  cases e with
  | render x => exact hp.render hN x
  | capture => exact hp.capture
  | restart => exact wf_of_empty rfl

theorem wf_run (hN : 0 < N) (es : List (Event α)) : (run es : Pairing N α).Wf :=
  Machine.run_invariant Wf (fun _ e hp => hp.step hN e) (wf_of_empty rfl) es

end Pairing

end AudioProc
