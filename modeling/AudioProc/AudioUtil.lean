import AudioProc.FloatOps
import Mathlib.Data.List.Basic

/-!
# Audio sample conversions

The conversions of `common_audio/audio_util` between the three representations of a
sample, named as there: S16 is `int16_t` in [-32768, 32767], Float is `float` in
[-1, 1], FloatS16 is `float` in [-32768, 32768].
-/

namespace AudioProc.AudioUtil

open FloatOps

universe u

variable {F : Type u} [FloatOps F]

/-- `static_cast<int16_t>` of a `float`. -/
def castS16 (v : F) : Int16 := Int16.ofInt (truncate v)

/-- `S16ToFloat` -/
def s16ToFloat (v : Int16) : F :=
  let kScaling : F := 1 / 32768.0
  ofInt v.toInt * kScaling

/-- `FloatS16ToS16` -/
def floatS16ToS16 (v : F) : Int16 :=
  let v := stdMin v 32767.0
  let v := stdMax v (-32768.0)
  castS16 (v + copysign 0.5 v)

/-- `FloatToS16` -/
def floatToS16 (v : F) : Int16 :=
  let v := v * 32768.0
  let v := stdMin v 32767.0
  let v := stdMax v (-32768.0)
  castS16 (v + copysign 0.5 v)

/-- `FloatToFloatS16` -/
def floatToFloatS16 (v : F) : F :=
  let v := stdMin v 1
  let v := stdMax v (-1)
  v * 32768.0

/-- `FloatS16ToFloat` -/
def floatS16ToFloat (v : F) : F :=
  let v := stdMin v 32768.0
  let v := stdMax v (-32768.0)
  let kScaling : F := 1 / 32768.0
  v * kScaling

/-! The array versions of `audio_util.cc` convert sample by sample. -/

def floatToS16s (src : List F) : List Int16 := src.map floatToS16

def s16ToFloats (src : List Int16) : List F := src.map s16ToFloat

def s16ToFloatS16s (src : List Int16) : List F := src.map fun v => ofInt v.toInt

def floatS16ToS16s (src : List F) : List Int16 := src.map floatS16ToS16

def floatToFloatS16s (src : List F) : List F := src.map floatToFloatS16

def floatS16ToFloats (src : List F) : List F := src.map floatS16ToFloat

end AudioProc.AudioUtil
