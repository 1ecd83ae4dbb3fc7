import Mathlib.Analysis.Real.Sqrt
import Mathlib.Algebra.Order.Floor.Ring

/-!
# The arithmetic the program computes with

The sources compute with `float`. The model is written once over `FloatOps`, the
operations they use, and read at two types:

* `Float32`, the binary32 arithmetic of the program itself, which makes the model run;
* `ℝ`, the exact arithmetic in which the signal properties are stated.

What is proved for every `FloatOps` holds of both, rounding included.
-/

namespace AudioProc

universe u

/-- The `float` operations of the sources: the field operations, comparison, literals,
conversions from and to the integer types, and `std::copysign`. -/
class FloatOps (F : Type u) extends
    Zero F, One F, Add F, Sub F, Mul F, Div F, Neg F, LT F, OfScientific F where
  decLt : DecidableLT F
  ofNat : ℕ → F
  ofInt : ℤ → F
  truncate : F → ℤ
  copysign : F → F → F

/-- `FloatOps` with the `sqrtf` of `<math.h>`. -/
class FloatMath (F : Type u) extends FloatOps F where
  sqrtf : F → F

namespace FloatOps

variable {F : Type u} [FloatOps F]

instance : DecidableLT F := FloatOps.decLt

/-- `std::min`: the second argument only when it is strictly smaller. -/
def stdMin (a b : F) : F := if b < a then b else a

/-- `std::max`: the second argument only when it is strictly larger. -/
def stdMax (a b : F) : F := if a < b then b else a

end FloatOps

/-! ## Exact real arithmetic -/

/-- Conversion to an integer type drops the fraction, that is, rounds toward zero. -/
noncomputable def truncReal (x : ℝ) : ℤ := if 0 ≤ x then ⌊x⌋ else ⌈x⌉

noncomputable instance : FloatMath ℝ where
  decLt := inferInstance
  ofNat := fun n => (n : ℝ)
  ofInt := fun n => (n : ℝ)
  truncate := truncReal
  copysign := fun x y => if y < 0 then -|x| else |x|
  sqrtf := Real.sqrt

namespace FloatOps

@[simp] theorem ofInt_real (n : ℤ) : (FloatOps.ofInt n : ℝ) = n := rfl

@[simp] theorem truncate_real (x : ℝ) : FloatOps.truncate x = truncReal x := rfl

theorem stdMin_real (a b : ℝ) : stdMin a b = min a b := by
  show (if b < a then b else a) = min a b
  split_ifs with h
  · exact (min_eq_right h.le).symm
  · exact (min_eq_left (not_lt.mp h)).symm

end FloatOps

theorem truncReal_of_nonneg {x : ℝ} (h : 0 ≤ x) : truncReal x = ⌊x⌋ := if_pos h

/-! ## Binary32 -/

/-- `std::copysign` on the bit patterns: the magnitude of `x` under the sign bit of `y`. -/
def copysign32 (x y : Float32) : Float32 :=
  Float32.ofBits ((x.toBits &&& 0x7fffffff) ||| (y.toBits &&& 0x80000000))

instance : FloatMath Float32 where
  zero := 0.0
  one := 1.0
  decLt := inferInstance
  ofNat := Float32.ofNat
  ofInt := Float32.ofInt
  truncate := fun x => x.toModel.toInt32.toInt
  copysign := copysign32
  sqrtf := Float32.sqrt

end AudioProc
