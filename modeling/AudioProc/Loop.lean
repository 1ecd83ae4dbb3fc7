import Mathlib.Tactic.Common

/-!
# Loops with break and return

A round of a C loop goes on with a new state, breaks out of the loop, or returns from the
whole function. `iterate body fuel s` runs at most `fuel` rounds; a body may itself fail
to come back (`none`), so that loops nest.

* `iterate_isSome`: a loop whose rounds lower a measure ends within that many rounds;
* `iterate_rule`: the rule of pre- and postconditions, with a loop invariant;
* `Ends`: how a loop ends, without its fuel. It is followed round by round (`Ends.next`) and
  holds for whatever fuel is enough (`Ends.iterate_eq`).
-/

namespace AudioProc.Loop

universe u v

variable {σ : Type u} {ρ : Type v}

/-- What one round of a loop does. -/
inductive Flow (σ : Type u) (ρ : Type v) where
  | next (s : σ)
  | brk (s : σ)
  | ret (r : ρ)

/-- The loop, for at most `fuel` rounds: the state a break left, or the value returned. -/
def iterate (body : σ → Option (Flow σ ρ)) : ℕ → σ → Option (σ ⊕ ρ)
  | 0, _ => none
  | fuel + 1, s =>
    match body s with
    | none => none
    | some (.next s') => iterate body fuel s'
    | some (.brk s') => some (.inl s')
    | some (.ret r) => some (.inr r)

variable {body : σ → Option (Flow σ ρ)}

/-- A loop whose rounds come back and lower a measure ends. -/
theorem iterate_isSome (inv : σ → Prop) (measure : σ → ℕ)
    (hback : ∀ s, inv s → body s ≠ none)
    (hnext : ∀ s s', inv s → body s = some (.next s') → inv s' ∧ measure s' < measure s)
    {fuel : ℕ} {s : σ} (hs : inv s) (hfuel : measure s < fuel) :
    (iterate body fuel s).isSome := by
  -- on the fuel, which stays above the measure of the state
  induction fuel generalizing s with
  | zero => exact absurd hfuel (Nat.not_lt_zero _)
  | succ fuel ih =>
      rw [iterate]
      cases hbody : body s with
      | none => exact absurd hbody (hback s hs)
      | some flow =>
          cases flow with
          | next s' =>
              rcases hnext s s' hs hbody with ⟨hs', hless⟩
              exact ih hs' (by omega)
          | brk s' => rfl
          | ret r => rfl

/-- The loop rule: an invariant kept by every round, and what it gives where the loop is
left. -/
theorem iterate_rule (inv : σ → Prop) (post : σ ⊕ ρ → Prop)
    (hnext : ∀ s s', inv s → body s = some (.next s') → inv s')
    (hbrk : ∀ s s', inv s → body s = some (.brk s') → post (.inl s'))
    (hret : ∀ s r, inv s → body s = some (.ret r) → post (.inr r))
    {fuel : ℕ} {s : σ} (hs : inv s) {e : σ ⊕ ρ} (he : iterate body fuel s = some e) :
    post e := by
  induction fuel generalizing s with
  | zero => exact absurd he (by simp [iterate])
  | succ fuel ih =>
      rw [iterate] at he
      cases hbody : body s with
      | none =>
          rw [hbody] at he
          exact absurd he (by simp)
      | some flow =>
          rw [hbody] at he
          cases flow with
          | next s' => exact ih (hnext s s' hs hbody) he
          | brk s' =>
              rcases Option.some.inj he with rfl
              exact hbrk s s' hs hbody
          | ret r =>
              rcases Option.some.inj he with rfl
              exact hret s r hs hbody

/-! ## How a loop ends -/

/-- The loop ends with `e`, after however many rounds. -/
def Ends (body : σ → Option (Flow σ ρ)) (s : σ) (e : σ ⊕ ρ) : Prop :=
  ∃ fuel, iterate body fuel s = some e

theorem Ends.next {s s' : σ} {e : σ ⊕ ρ} (h : body s = some (.next s')) (he : Ends body s' e) :
    Ends body s e := by
  rcases he with ⟨fuel, hfuel⟩
  refine ⟨fuel + 1, ?_⟩
  rw [iterate, h]
  exact hfuel

theorem ends_brk {s s' : σ} (h : body s = some (.brk s')) : Ends body s (.inl s') := by
  refine ⟨1, ?_⟩
  rw [iterate, h]

theorem ends_ret {s : σ} {r : ρ} (h : body s = some (.ret r)) : Ends body s (.inr r) := by
  refine ⟨1, ?_⟩
  rw [iterate, h]

/-- More fuel does not change the end. -/
theorem iterate_mono {fuel fuel' : ℕ} (hle : fuel ≤ fuel') {s : σ} {e : σ ⊕ ρ}
    (h : iterate body fuel s = some e) : iterate body fuel' s = some e := by
  induction fuel generalizing fuel' s with
  | zero => exact absurd h (by simp [iterate])
  | succ fuel ih =>
      obtain ⟨k, rfl⟩ : ∃ k, fuel' = k + 1 := ⟨fuel' - 1, by omega⟩
      rw [iterate] at h ⊢
      cases hbody : body s with
      | none =>
          rw [hbody] at h
          exact absurd h (by simp)
      | some flow =>
          rw [hbody] at h
          cases flow with
          | next s' => exact ih (Nat.le_of_succ_le_succ hle) h
          | brk s' => exact h
          | ret r => exact h

theorem Ends.unique {s : σ} {e e' : σ ⊕ ρ} (h : Ends body s e) (h' : Ends body s e') :
    e = e' := by
  rcases h with ⟨fuel, hfuel⟩
  rcases h' with ⟨fuel', hfuel'⟩
  have hboth := iterate_mono (Nat.le_max_left fuel fuel') hfuel
  rw [iterate_mono (Nat.le_max_right fuel fuel') hfuel'] at hboth
  exact (Option.some.inj hboth).symm

/-- Whatever fuel is enough, the loop ends as it does. -/
theorem Ends.iterate_eq {s : σ} {e : σ ⊕ ρ} (h : Ends body s e) {fuel : ℕ}
    (hsome : (iterate body fuel s).isSome) : iterate body fuel s = some e := by
  rcases Option.isSome_iff_exists.mp hsome with ⟨e', he'⟩
  rw [he', h.unique ⟨fuel, he'⟩]

end AudioProc.Loop
