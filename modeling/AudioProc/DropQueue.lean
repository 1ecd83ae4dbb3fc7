import Mathlib.Data.List.Basic

/-!
# Bounded drop-oldest queues

The abstract queue behind a circular buffer of capacity `N`: a list, oldest element
first. `push` appends and, when the length would exceed `N`, discards the oldest element;
`pop` removes and returns the oldest element. `Op` and `step` make a machine of it, and
`result` is what an operation returns.
-/

namespace AudioProc.DropQueue

universe u v

variable {α : Type u} {β : Type v} {N : ℕ}

/-- Append, discarding the oldest element when the queue is full. -/
def push (N : ℕ) (q : List α) (x : α) : List α :=
  if q.length < N then q ++ [x] else q.tail ++ [x]

/-- Remove and return the oldest element. -/
def pop : List α → Option α × List α
  | [] => (none, [])
  | x :: q => (some x, q)

theorem push_of_lt {q : List α} (h : q.length < N) (x : α) : push N q x = q ++ [x] :=
  if_pos h

theorem push_of_full {q : List α} (h : N ≤ q.length) (x : α) :
    push N q x = q.tail ++ [x] :=
  if_neg (Nat.not_lt.mpr h)

@[simp] theorem pop_nil : pop ([] : List α) = (none, []) := rfl

@[simp] theorem pop_cons (x : α) (q : List α) : pop (x :: q) = (some x, q) := rfl

theorem length_push (hN : 0 < N) {q : List α} (hq : q.length ≤ N) (x : α) :
    (push N q x).length = min (q.length + 1) N := by
  unfold push
  split_ifs with h
  · simp
    omega
  · simp
    omega

theorem push_ne_nil (q : List α) (x : α) : push N q x ≠ [] := by
  unfold push
  split_ifs <;> simp

/-- The queue moves values around without looking at them. -/
theorem map_push (f : α → β) (q : List α) (x : α) :
    (push N q x).map f = push N (q.map f) (f x) := by
  simp only [push, List.length_map]
  split_ifs <;> simp

/-! ## The queue as a machine -/

/-- The operations on a queue of capacity `N`. -/
inductive Op (α : Type u) where
  | push (value : α)
  | pop
  | clear
deriving DecidableEq

/-- The queue after an operation. -/
def step (N : ℕ) (q : List α) : Op α → List α
  | .push x => push N q x
  | .pop => (pop q).2
  | .clear => []

/-- What an operation returns: only `pop` returns a value. -/
def result (q : List α) : Op α → Option α
  | .pop => (pop q).1
  | _ => none

end AudioProc.DropQueue
