import AudioProc.AudioUtil
import AudioProc.Rounding

/-!
# The sample conversions in exact arithmetic

The conversions of `common_audio/audio_util`, read at the rationals. `FloatToS16` and
`FloatS16ToS16` share how they end: the sample is clamped to the range of `int16_t`, a half of
its sign is added, and the cast drops the fraction. `toInt_floatS16ToS16` says that this
rounds to the nearest integer and saturates.

`floatToS16_rounds` has the consequences: the cast stays in range, the order of samples is
kept, the direct conversion agrees with the one in two steps, and no sample of an `int16_t`
array changes on the way to floats and back.
-/

namespace AudioProc

/-- Exact rational arithmetic. -/
instance : FloatOps ℚ where
  decLt := inferInstance
  ofNat := fun n => (n : ℚ)
  ofInt := fun n => (n : ℚ)
  truncate := Rounding.truncate
  copysign := fun x y => if y < 0 then -|x| else |x|

namespace AudioUtil

open FloatOps Rounding

universe u

/-- What `FloatToS16` and `FloatS16ToS16` cast to `int16_t`, from the sample in the range of
FloatS16 on. -/
def castArgument {F : Type u} [FloatOps F] (v : F) : F :=
  let v := stdMin v 32767.0
  let v := stdMax v (-32768.0)
  v + copysign 0.5 v

theorem floatS16ToS16_eq {F : Type u} [FloatOps F] (v : F) :
    floatS16ToS16 v = castS16 (castArgument v) := rfl

theorem floatToS16_eq {F : Type u} [FloatOps F] (v : F) :
    floatToS16 v = floatS16ToS16 (v * 32768.0) := rfl

/-! ## The operations at the rationals -/

theorem stdMin_rat (a b : ℚ) : stdMin a b = min a b := by
  show (if b < a then b else a) = min a b
  split_ifs with h
  · exact (min_eq_right h.le).symm
  · exact (min_eq_left (not_lt.mp h)).symm

theorem stdMax_rat (a b : ℚ) : stdMax a b = max a b := by
  show (if a < b then b else a) = max a b
  split_ifs with h
  · exact (max_eq_right h.le).symm
  · exact (max_eq_left (not_lt.mp h)).symm

theorem copysign_half (x : ℚ) : copysign 0.5 x = half x := by
  have habs : |(0.5 : ℚ)| = 1 / 2 := by norm_num
  show (if x < 0 then -|(0.5 : ℚ)| else |0.5|) = if x < 0 then -(1 / 2) else 1 / 2
  rw [habs]

theorem castArgument_rat (x : ℚ) :
    castArgument x = max (min x 32767) (-32768) + half (max (min x 32767) (-32768)) := by
  have hmax : (32767.0 : ℚ) = 32767 := by norm_num
  have hmin : (-32768.0 : ℚ) = -32768 := by norm_num
  simp only [castArgument, copysign_half, stdMin_rat, stdMax_rat, hmax, hmin]

/-! ## Rounding and saturation -/

/-- What the cast leaves of its argument: the nearest integer, saturated. -/
theorem truncate_castArgument (x : ℚ) :
    FloatOps.truncate (castArgument x) = max (min (roundAway x) 32767) (-32768) := by
  -- the bounds are integers, so that clamping after rounding is the same
  have hclamp := roundAway_clamp x (-32768) 32767
  push_cast at hclamp
  rw [castArgument_rat, ← hclamp]
  exact truncate_add_half _

theorem truncate_castArgument_mem (x : ℚ) :
    -32768 ≤ FloatOps.truncate (castArgument x) ∧ FloatOps.truncate (castArgument x) ≤ 32767 := by
  rw [truncate_castArgument]
  constructor
  · exact le_max_right _ _
  · exact max_le (min_le_right _ _) (by norm_num)

theorem toInt_floatS16ToS16 (x : ℚ) :
    (floatS16ToS16 x).toInt = max (min (roundAway x) 32767) (-32768) := by
  rcases truncate_castArgument_mem x with ⟨hlow, hhigh⟩
  rw [floatS16ToS16_eq, castS16, Int16.toInt_ofInt_of_le hlow (Int.lt_add_one_of_le hhigh),
    truncate_castArgument]

theorem toInt_floatToS16 (v : ℚ) :
    (floatToS16 v).toInt = max (min (roundAway (32768 * v)) 32767) (-32768) := by
  have hscale : v * 32768.0 = 32768 * v := by
    rw [mul_comm]
    norm_num
  rw [floatToS16_eq, toInt_floatS16ToS16, hscale]

theorem floatToS16_mono : Monotone fun v : ℚ => (floatToS16 v).toInt := by
  intro v w hvw
  have hround : roundAway (32768 * v) ≤ roundAway (32768 * w) :=
    roundAway_mono (mul_le_mul_of_nonneg_left hvw (by norm_num))
  show (floatToS16 v).toInt ≤ (floatToS16 w).toInt
  rw [toInt_floatToS16, toInt_floatToS16]
  exact max_le_max_right _ (min_le_min_right _ hround)

/-! ## Two steps -/

/-- Clamping the sample first, to a larger range, does not change what is cast. -/
theorem clamp_floatToFloatS16 (v : ℚ) :
    max (min (floatToFloatS16 v) 32767) (-32768) = max (min (v * 32768) 32767) (-32768) := by
  have hscale : floatToFloatS16 v = max (min v 1) (-1) * 32768 := by
    have hlit : (32768.0 : ℚ) = 32768 := by norm_num
    simp only [floatToFloatS16, stdMin_rat, stdMax_rat, hlit]
  rw [hscale]
  rcases le_total 1 v with hhigh | hhigh
  · -- both ways end at the upper bound
    have hclamp : max (min v 1) (-1) = 1 := by
      rw [min_eq_right hhigh, max_eq_left (by norm_num)]
    have hone : min (1 * 32768 : ℚ) 32767 = 32767 := min_eq_right (by norm_num)
    have hsame : min (v * 32768) 32767 = 32767 := min_eq_right (by linarith)
    rw [hclamp, hone, hsame]
  · rcases le_total v (-1) with hlow | hlow
    · have hclamp : max (min v 1) (-1) = -1 := by
        rw [min_eq_left hhigh, max_eq_right hlow]
      have hone : max (min (-1 * 32768 : ℚ) 32767) (-32768) = -32768 := by norm_num
      have hsame : max (min (v * 32768) 32767) (-32768) = -32768 :=
        max_eq_right (min_le_of_left_le (by linarith))
      rw [hclamp, hone, hsame]
    · rw [min_eq_left hhigh, max_eq_left hlow]

theorem floatToS16_two_steps (v : ℚ) : floatToS16 v = floatS16ToS16 (floatToFloatS16 v) := by
  have hscale : v * 32768.0 = v * 32768 := by norm_num
  rw [floatToS16_eq, floatS16ToS16_eq, floatS16ToS16_eq, castArgument_rat, castArgument_rat,
    clamp_floatToFloatS16, hscale]

/-! ## Round trips -/

/-- An `int16_t` is its own nearest integer, in range. -/
theorem floatS16ToS16_ofInt (v : Int16) : floatS16ToS16 (FloatOps.ofInt v.toInt : ℚ) = v := by
  have hlow : -32768 ≤ v.toInt := v.le_toInt
  have hhigh : v.toInt ≤ 32767 := v.toInt_le
  have hround : roundAway (FloatOps.ofInt v.toInt : ℚ) = v.toInt := roundAway_intCast v.toInt
  apply Int16.toInt.inj
  rw [toInt_floatS16ToS16, hround, min_eq_left hhigh, max_eq_left hlow]

theorem floatToS16_s16ToFloat (v : Int16) : floatToS16 (s16ToFloat v : ℚ) = v := by
  have hscale : (s16ToFloat v : ℚ) * 32768.0 = FloatOps.ofInt v.toInt := by
    have hinv : (1 / 32768.0 : ℚ) * 32768.0 = 1 := by norm_num
    simp only [s16ToFloat, mul_assoc, hinv, mul_one]
  rw [floatToS16_eq, hscale, floatS16ToS16_ofInt]

/-- **The conversions to S16** in exact arithmetic. -/
theorem floatToS16_rounds :
    (∀ v : ℚ, ∃ n : ℤ, IsNearestAway (32768 * v) n ∧
      (floatToS16 v).toInt = max (min n 32767) (-32768)) ∧
    (∀ v : ℚ, floatToS16 v = castS16 (castArgument (v * 32768.0)) ∧
      -32768 ≤ FloatOps.truncate (castArgument (v * 32768.0)) ∧
      FloatOps.truncate (castArgument (v * 32768.0)) ≤ 32767) ∧
    (Monotone fun v : ℚ => (floatToS16 v).toInt) ∧
    (∀ v : ℚ, floatToS16 v = floatS16ToS16 (floatToFloatS16 v)) ∧
    (∀ src : List Int16, floatToS16s (s16ToFloats src : List ℚ) = src) ∧
    ∀ src : List Int16, floatS16ToS16s (s16ToFloatS16s src : List ℚ) = src := by
  refine ⟨?_, ?_, floatToS16_mono, floatToS16_two_steps, ?_, ?_⟩
  · intro v
    exact ⟨_, isNearestAway_roundAway _, toInt_floatToS16 v⟩
  · intro v
    exact ⟨rfl, truncate_castArgument_mem _⟩
  · intro src
    unfold floatToS16s s16ToFloats
    rw [List.map_map]
    exact List.map_id'' floatToS16_s16ToFloat src
  · intro src
    unfold floatS16ToS16s s16ToFloatS16s
    rw [List.map_map]
    exact List.map_id'' floatS16ToS16_ofInt src

end AudioUtil

end AudioProc
