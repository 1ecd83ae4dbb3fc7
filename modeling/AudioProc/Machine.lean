import Mathlib.Data.List.Infix

/-!
# Deterministic machines

A machine is a step function `step : σ → ι → σ` read from an initial state. This file
has the rules every run of such a machine is reasoned with:

* `run_invariant`: what holds at the start and is preserved by a step holds after
  every run;
* `run_induct`: the same for a predicate that also sees the inputs consumed so far,
  where the step case may use that they are a prefix of the whole run;
* `run_rank`: a measure that every step lowers until it is 0 is 0 after that many inputs;
* `run_rel_map`, `run_rel`, `observe_eq_of_sim`: two machines in lockstep stay related,
  and a relation that explains every observation makes the observed traces equal;
* `total_balance`, `total_le`: what the steps of a run add up to, from a balance or a
  potential that every single step respects.
-/

namespace AudioProc.Machine

universe u v w

variable {σ τ : Type u} {ι : Type v} {ω : Type w}

/-- The state after a list of inputs, oldest input first. -/
def run (step : σ → ι → σ) (s : σ) (is : List ι) : σ :=
  is.foldl step s

/-- What is seen along a run: `obs` looks at the state before each input and at the
input itself. -/
def observe (step : σ → ι → σ) (obs : σ → ι → ω) : σ → List ι → List ω
  | _, [] => []
  | s, i :: is => obs s i :: observe step obs (step s i) is

section Run

variable (step : σ → ι → σ) (s : σ)

@[simp] theorem run_nil : run step s [] = s := rfl

@[simp] theorem run_cons (i : ι) (is : List ι) :
    run step s (i :: is) = run step (step s i) is := rfl

theorem run_append (is js : List ι) :
    run step s (is ++ js) = run step (run step s is) js := by
  simp [run]

@[simp] theorem run_concat (is : List ι) (i : ι) :
    run step s (is ++ [i]) = step (run step s is) i := by
  simp [run]

@[simp] theorem observe_nil (obs : σ → ι → ω) : observe step obs s [] = [] := rfl

@[simp] theorem observe_cons (obs : σ → ι → ω) (i : ι) (is : List ι) :
    observe step obs s (i :: is) = obs s i :: observe step obs (step s i) is := rfl

theorem observe_append (obs : σ → ι → ω) (is js : List ι) :
    observe step obs s (is ++ js) =
      observe step obs s is ++ observe step obs (run step s is) js := by
  induction is generalizing s with
  | nil => rfl
  | cons i is ih => simp [ih]

end Run

/-- Invariant induction: a step-preserved predicate holds after every run. -/
theorem run_invariant {step : σ → ι → σ} (inv : σ → Prop)
    (hstep : ∀ s i, inv s → inv (step s i)) {s : σ} (hs : inv s) (is : List ι) :
    inv (run step s is) := by
  induction is generalizing s with
  | nil => exact hs
  | cons i is ih => exact ih (hstep s i hs)

/-- Prefix induction along a fixed run: the step case may use where in the run it
stands. -/
theorem run_induct (step : σ → ι → σ) (s : σ) (P : List ι → σ → Prop) (is : List ι)
    (hinit : P [] s)
    (hstep : ∀ pre i post t, is = pre ++ i :: post → P pre t → P (pre ++ [i]) (step t i)) :
    ∀ pre, pre <+: is → P pre (run step s pre) := by
  intro pre
  induction pre using List.reverseRecOn with
  | nil =>
      intro _
      exact hinit
  | append_singleton pre i ih =>
      -- the prefix extends to the whole run by the input consumed last and what follows it
      rintro ⟨post, hpost⟩
      have hsplit : is = pre ++ i :: post := by simpa using hpost.symm
      have hpre : P pre (run step s pre) := ih ⟨i :: post, hsplit.symm⟩
      simpa using hstep pre i post _ hsplit hpre

/-- The ranking rule: a measure lowered by every step, as long as it is not 0, is lowered
by the length of the run. -/
theorem run_rank {step : σ → ι → σ} {inv : σ → Prop} {rank : σ → ℕ}
    (hstep : ∀ s i, inv s → inv (step s i))
    (hrank : ∀ s i, inv s → rank (step s i) ≤ rank s - 1) {s : σ} (hs : inv s)
    (is : List ι) : rank (run step s is) ≤ rank s - is.length := by
  induction is generalizing s with
  | nil => exact le_rfl
  | cons i is ih =>
      have hnext := ih (hstep s i hs)
      have hone := hrank s i hs
      rw [run_cons, List.length_cons]
      omega

/-- The lockstep rule: two machines whose steps preserve a relation stay related along a
run and its translation. -/
theorem run_rel_map {κ : Type v} {step : σ → ι → σ} {step' : τ → κ → τ} (R : σ → τ → Prop)
    (f : ι → κ) (hstep : ∀ s t i, R s t → R (step s i) (step' t (f i)))
    {s : σ} {t : τ} (hR : R s t) (is : List ι) :
    R (run step s is) (run step' t (is.map f)) := by
  induction is generalizing s t with
  | nil => exact hR
  | cons i is ih => exact ih (hstep s t i hR)

/-- The lockstep rule for two machines with the same inputs. -/
theorem run_rel {step : σ → ι → σ} {step' : τ → ι → τ} (R : σ → τ → Prop)
    (hstep : ∀ s t i, R s t → R (step s i) (step' t i))
    {s : σ} {t : τ} (hR : R s t) (is : List ι) : R (run step s is) (run step' t is) := by
  have hrun := run_rel_map R id hstep hR is
  rwa [List.map_id] at hrun

/-- The lockstep rule for traces: if related states are observed alike and stay
related, the two runs are observed alike. -/
theorem observe_eq_of_sim {step : σ → ι → σ} {step' : τ → ι → τ} {R : σ → τ → Prop}
    {obs : σ → ι → ω} {obs' : τ → ι → ω}
    (hstep : ∀ s t i, R s t → R (step s i) (step' t i))
    (hobs : ∀ s t i, R s t → obs s i = obs' t i)
    {s : σ} {t : τ} (hR : R s t) (is : List ι) :
    observe step obs s is = observe step' obs' t is := by
  induction is generalizing s t with
  | nil => rfl
  | cons i is ih =>
      simp only [observe_cons, hobs s t i hR]
      rw [ih (hstep s t i hR)]

/-! ## Totals along a run -/

/-- What the steps of a run add up to, `amount` being what one step adds. -/
def total (step : σ → ι → σ) (amount : σ → ι → ℕ) : σ → List ι → ℕ
  | _, [] => 0
  | s, i :: is => amount s i + total step amount (step s i) is

theorem total_append (step : σ → ι → σ) (amount : σ → ι → ℕ) (s : σ) (is js : List ι) :
    total step amount s (is ++ js) =
      total step amount s is + total step amount (run step s is) js := by
  induction is generalizing s with
  | nil => exact (Nat.zero_add _).symm
  | cons i is ih =>
      rw [List.cons_append, total, ih, total, run_cons, Nat.add_assoc]

theorem total_zero (step : σ → ι → σ) (s : σ) (is : List ι) :
    total step (fun _ _ => 0) s is = 0 := by
  induction is generalizing s with
  | nil => rfl
  | cons i is ih => rw [total, ih]

theorem total_add (step : σ → ι → σ) (amount amount' : σ → ι → ℕ) (s : σ) (is : List ι) :
    total step (fun s i => amount s i + amount' s i) s is =
      total step amount s is + total step amount' s is := by
  induction is generalizing s with
  | nil => rfl
  | cons i is ih =>
      rw [total, total, total, ih]
      omega

theorem total_mul (step : σ → ι → σ) (n : ℕ) (amount : σ → ι → ℕ) (s : σ) (is : List ι) :
    total step (fun s i => n * amount s i) s is = n * total step amount s is := by
  induction is generalizing s with
  | nil => rfl
  | cons i is ih => rw [total, total, ih, Nat.mul_add]

/-- The balance rule: when every step turns what it brings into what it takes out and what
is left, so does the run. -/
theorem total_balance {step : σ → ι → σ} {level : σ → ℕ} {brought taken : σ → ι → ℕ}
    (hstep : ∀ s i, level s + brought s i = level (step s i) + taken s i) (s : σ)
    (is : List ι) :
    level s + total step brought s is = level (run step s is) + total step taken s is := by
  induction is generalizing s with
  | nil => rfl
  | cons i is ih =>
      have hone := hstep s i
      have hrest := ih (step s i)
      rw [total, total, run_cons]
      omega

/-- The potential rule: when under an invariant every step pays for what it costs with what
it earns and with potential, so does the run. -/
theorem total_le {step : σ → ι → σ} {inv : σ → Prop} (potential : σ → ℕ)
    (cost earned : σ → ι → ℕ) (hinv : ∀ s i, inv s → inv (step s i))
    (hstep : ∀ s i, inv s → potential (step s i) + cost s i ≤ potential s + earned s i) {s : σ}
    (hs : inv s) (is : List ι) :
    potential (run step s is) + total step cost s is ≤
      potential s + total step earned s is := by
  induction is generalizing s with
  | nil => exact le_rfl
  | cons i is ih =>
      have hone := hstep s i hs
      have hrest := ih (hinv s i hs)
      rw [total, total, run_cons]
      omega

end AudioProc.Machine
