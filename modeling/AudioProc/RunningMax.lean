import Mathlib.Order.Lattice
import Mathlib.Order.MinMax
import Mathlib.Order.RelClasses
import Mathlib.Tactic.Common

/-!
# The running maximum of a counted loop

`runningMax m f n` is what a loop over `d = 0, …, n - 1` leaves in a variable that starts
at `m` and is replaced by `f d` whenever `f d` is strictly larger; `runningArg m f n` is
the iteration that replaced it last. They need a decidable `<` only, so they also describe
the loop over floating-point values.

In a strict order no value is above the running maximum, and the iteration that replaced
it last is the first one with that value (`runningArg_cases`). The bounds are for linear
orders.
-/

namespace AudioProc

universe u

section Loop

variable {α : Type u} [LT α] [DecidableLT α]

/-- The running maximum of `f 0, …, f (n - 1)`, started from `m`. -/
def runningMax (m : α) (f : ℕ → α) : ℕ → α
  | 0 => m
  | n + 1 => if runningMax m f n < f n then f n else runningMax m f n

/-- If no value from the second on exceeds what the first left, the loop leaves that. -/
theorem runningMax_eq_first {m : α} {f : ℕ → α}
    (h : ∀ d, ¬ runningMax m f 1 < f (d + 1)) (n : ℕ) :
    runningMax m f (n + 1) = runningMax m f 1 := by
  induction n with
  | zero => rfl
  | succ n ih =>
      rw [runningMax, ih, if_neg (h n)]

/-- The last iteration that raised the running maximum, -1 when there was none. -/
def runningArg (m : α) (f : ℕ → α) : ℕ → ℤ
  | 0 => -1
  | n + 1 => if runningMax m f n < f n then n else runningArg m f n

end Loop

section Strict

variable {α : Type u} [LT α] [DecidableLT α] [IsStrictOrder α (· < ·)] {m : α} {f : ℕ → α}

/-- Nothing the loop has seen is above what it keeps. -/
theorem not_runningMax_lt {n d : ℕ} (hd : d < n) : ¬ runningMax m f n < f d := by
  induction n with
  | zero => exact absurd hd (Nat.not_lt_zero d)
  | succ n ih =>
      rw [runningMax]
      rcases Nat.lt_succ_iff_lt_or_eq.mp hd with hlt | rfl
      · split_ifs with hraise
        · -- the value kept before was smaller still
          intro habove
          exact ih hlt (trans_of (· < ·) hraise habove)
        · exact ih hlt
      · split_ifs with hraise
        · exact irrefl_of (· < ·) _
        · exact hraise

/-- The two ways the loop can end: it never raised the start value, or the last iteration
that did is the first one with the value kept. -/
theorem runningArg_cases (m : α) (f : ℕ → α) (n : ℕ) :
    (runningArg m f n = -1 ∧ runningMax m f n = m) ∨
    ∃ d < n, runningArg m f n = d ∧ runningMax m f n = f d ∧ m < f d ∧
      ∀ j < d, f j ≠ f d := by
  induction n with
  | zero =>
      left
      exact ⟨rfl, rfl⟩
  | succ n ih =>
      rw [runningArg, runningMax]
      split_ifs with hraise
      · -- an earlier value equal to `f n` would have been above what was kept
        right
        refine ⟨n, n.lt_succ_self, rfl, rfl, ?_, ?_⟩
        · rcases ih with ⟨-, hmax⟩ | ⟨d, -, -, hmax, hm, -⟩
          · rwa [hmax] at hraise
          · rw [hmax] at hraise
            exact trans_of (· < ·) hm hraise
        · intro j hj hsame
          rw [← hsame] at hraise
          exact not_runningMax_lt hj hraise
      · rcases ih with ⟨harg, hmax⟩ | ⟨d, hd, harg, hmax, hm, hfirst⟩
        · exact Or.inl ⟨harg, hmax⟩
        · exact Or.inr ⟨d, Nat.lt_succ_of_lt hd, harg, hmax, hm, hfirst⟩

theorem not_runningMax_lt_start (n : ℕ) : ¬ runningMax m f n < m := by
  rcases runningArg_cases m f n with ⟨-, hmax⟩ | ⟨d, -, -, hmax, hm, -⟩
  · rw [hmax]
    exact irrefl_of (· < ·) m
  · rw [hmax]
    exact asymm_of (· < ·) hm

end Strict

section Order

variable {α : Type u} [LinearOrder α] {m : α} {f : ℕ → α} {n : ℕ}

theorem runningMax_succ (m : α) (f : ℕ → α) (n : ℕ) :
    runningMax m f (n + 1) = max (runningMax m f n) (f n) := by
  rw [runningMax]
  split_ifs with h
  · exact (max_eq_right h.le).symm
  · exact (max_eq_left (not_lt.mp h)).symm

theorem start_le_runningMax : m ≤ runningMax m f n := by
  induction n with
  | zero => exact le_rfl
  | succ n ih =>
      rw [runningMax_succ]
      exact ih.trans (le_max_left _ _)

theorem le_runningMax {d : ℕ} (hd : d < n) : f d ≤ runningMax m f n := by
  induction n with
  | zero => exact absurd hd (Nat.not_lt_zero d)
  | succ n ih =>
      rw [runningMax_succ]
      rcases Nat.lt_succ_iff_lt_or_eq.mp hd with hlt | rfl
      · exact (ih hlt).trans (le_max_left _ _)
      · exact le_max_right _ _

theorem runningMax_lt {b : α} (hm : m < b) (h : ∀ d < n, f d < b) :
    runningMax m f n < b := by
  induction n with
  | zero => exact hm
  | succ n ih =>
      rw [runningMax_succ]
      exact max_lt (ih fun d hd => h d (Nat.lt_succ_of_lt hd)) (h n n.lt_succ_self)

theorem runningMax_le {b : α} (hm : m ≤ b) (h : ∀ d < n, f d ≤ b) :
    runningMax m f n ≤ b := by
  induction n with
  | zero => exact hm
  | succ n ih =>
      rw [runningMax_succ]
      exact max_le (ih fun d hd => h d (Nat.lt_succ_of_lt hd)) (h n n.lt_succ_self)

/-- A pointwise comparison that only has to hold above the start value. -/
theorem runningMax_mono {g : ℕ → α} (h : ∀ d < n, f d ≤ max m (g d)) :
    runningMax m f n ≤ runningMax m g n := by
  apply runningMax_le start_le_runningMax
  intro d hd
  exact (h d hd).trans (max_le start_le_runningMax (le_runningMax hd))

end Order

end AudioProc
