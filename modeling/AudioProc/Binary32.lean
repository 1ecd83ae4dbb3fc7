import Mathlib

/-!
# The order of binary32 values

`<` on `Float32` is not a linear order: no comparison with a NaN holds, and the two zeros
are not below each other. It is a strict order, which is what a loop that keeps a maximum
needs.

The comparison of the floating-point model is read off a rank: the class of a value (the
infinities, the two signs, zero), then its exponent, then its mantissa.
-/

namespace AudioProc.Binary32

open Float.Model

/-- Where a value stands in the order. Exponent and mantissa count backwards below 0. -/
def rank : UnpackedFloat → ℤ × ℤ × ℤ
  | .infinity .positive => (2, 0, 0)
  | .infinity .negative => (-2, 0, 0)
  | .notANumber => (0, 0, 0)
  | .zero _ => (0, 0, 0)
  | .finite .positive m e _ => (1, e, m)
  | .finite .negative m e _ => (-1, -e, -m)

/-- The lexicographic order of ranks. -/
def RankLt (a b : ℤ × ℤ × ℤ) : Prop :=
  a.1 < b.1 ∨ a.1 = b.1 ∧ (a.2.1 < b.2.1 ∨ a.2.1 = b.2.1 ∧ a.2.2 < b.2.2)

theorem RankLt.irrefl (a : ℤ × ℤ × ℤ) : ¬ RankLt a a := by
  unfold RankLt
  omega

theorem RankLt.trans {a b c : ℤ × ℤ × ℤ} (h : RankLt a b) (h' : RankLt b c) : RankLt a c := by
  unfold RankLt at *
  omega

theorem compare_then_eq_lt (e₁ e₂ : ℤ) (m₁ m₂ : ℕ) :
    (compare e₁ e₂).then (compare m₁ m₂) = .lt ↔ e₁ < e₂ ∨ e₁ = e₂ ∧ m₁ < m₂ := by
  rw [Ordering.then_eq_lt]
  simp [compare_lt_iff_lt]

theorem compare_then_eq_gt (e₁ e₂ : ℤ) (m₁ m₂ : ℕ) :
    (compare e₁ e₂).then (compare m₁ m₂) = .gt ↔ e₂ < e₁ ∨ e₁ = e₂ ∧ m₂ < m₁ := by
  rw [Ordering.then_eq_gt]
  simp [compare_gt_iff_gt]

/-- The comparison of the model is the order of ranks, away from NaN. -/
theorem unpacked_lt_iff (a b : UnpackedFloat) :
    a.lt b = true ↔ a ≠ .notANumber ∧ b ≠ .notANumber ∧ RankLt (rank a) (rank b) := by
  unfold UnpackedFloat.lt
  rw [beq_iff_eq]
  rcases a with (_ | _) | _ | _ | ⟨_ | _, m₁, e₁, h₁⟩ <;>
    rcases b with (_ | _) | _ | _ | ⟨_ | _, m₂, e₂, h₂⟩ <;>
    simp [UnpackedFloat.compare, RankLt, rank, compare_then_eq_lt, compare_then_eq_gt]
  -- left over: the negative infinity is below the positive one
  rfl

theorem lt_iff (a b : Float32) :
    a < b ↔ a.toModel.unpack.lt b.toModel.unpack = true := by
  show (decide (a.toModel.unpack.lt b.toModel.unpack = true)) = true ↔ _
  exact decide_eq_true_iff

instance instIsStrictOrderFloat32 : IsStrictOrder Float32 (· < ·) where
  irrefl a h := by
    rw [lt_iff, unpacked_lt_iff] at h
    exact RankLt.irrefl _ h.2.2
  trans a b c h h' := by
    rw [lt_iff, unpacked_lt_iff] at *
    exact ⟨h.1, h'.2.1, h.2.2.trans h'.2.2⟩

end AudioProc.Binary32
