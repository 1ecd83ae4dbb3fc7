import Mathlib.Data.Int.Notation
import Mathlib.Data.List.Basic
import Mathlib.Tactic.Common

/-!
# Writing a regular file with C stdio

A stream over a regular file that was opened for writing. A write replaces what stands at the
position and extends the file where it ends; every write reaches the file.

`fwrite_fwrite` joins writes that follow each other, so that a function that writes is known
by the bytes it writes.
-/

namespace AudioProc

/-- A stream opened for writing. -/
structure OutFile where
  contents : List UInt8
  pos : ℕ
deriving DecidableEq

namespace OutFile

/-- A file opened with mode "wb". -/
def fopen : OutFile where
  contents := []
  pos := 0

/-- `fwrite`. A gap between the end of the file and the position would be filled with
zeros. -/
def fwrite (f : OutFile) (bytes : List UInt8) : OutFile where
  contents := f.contents.take f.pos ++ List.replicate (f.pos - f.contents.length) 0 ++ bytes ++
    f.contents.drop (f.pos + bytes.length)
  pos := f.pos + bytes.length

/-- `fputc`: the argument is converted to an `unsigned char`. -/
def fputc (f : OutFile) (c : ℤ) : OutFile := f.fwrite [UInt8.ofInt c]

/-- `fseek(…, n, SEEK_SET)` -/
def fseekSet (f : OutFile) (n : ℕ) : OutFile := { f with pos := n }

/-- What is in front of the position after a write. -/
theorem take_fwrite (f : OutFile) (bytes : List UInt8) :
    (f.fwrite bytes).contents.take (f.fwrite bytes).pos =
      f.contents.take f.pos ++ List.replicate (f.pos - f.contents.length) 0 ++ bytes := by
  apply List.take_left'
  simp only [fwrite, List.length_append, List.length_take, List.length_replicate]
  omega

/-- What is behind it is what was there before. -/
theorem drop_fwrite (f : OutFile) (bytes : List UInt8) (n : ℕ) :
    (f.fwrite bytes).contents.drop ((f.fwrite bytes).pos + n) =
      f.contents.drop (f.pos + (bytes.length + n)) := by
  have hfront : (f.contents.take f.pos ++ List.replicate (f.pos - f.contents.length) 0 ++
      bytes).length = (f.fwrite bytes).pos := by
    simp only [fwrite, List.length_append, List.length_take, List.length_replicate]
    omega
  rw [← List.drop_drop, ← Nat.add_assoc, ← List.drop_drop]
  congr 1
  rw [← hfront]
  exact List.drop_left

theorem pos_fwrite_le (f : OutFile) (bytes : List UInt8) :
    (f.fwrite bytes).pos ≤ (f.fwrite bytes).contents.length := by
  simp only [fwrite, List.length_append, List.length_take, List.length_replicate]
  omega

/-- Two writes are one. -/
theorem fwrite_fwrite (f : OutFile) (bytes more : List UInt8) :
    (f.fwrite bytes).fwrite more = f.fwrite (bytes ++ more) := by
  have htake := take_fwrite f bytes
  have hdrop := drop_fwrite f bytes more.length
  have hgap : (f.fwrite bytes).pos - (f.fwrite bytes).contents.length = 0 :=
    Nat.sub_eq_zero_of_le (pos_fwrite_le f bytes)
  have hpos : (f.fwrite bytes).pos + more.length = f.pos + (bytes ++ more).length := by
    rw [List.length_append, ← Nat.add_assoc]
    rfl
  rw [fwrite, htake, hdrop, hgap, hpos, fwrite, List.length_append]
  simp only [List.replicate_zero, List.append_nil, List.append_assoc]

/-- Writing at the end appends. -/
theorem fwrite_end {f : OutFile} (h : f.pos = f.contents.length) (bytes : List UInt8) :
    f.fwrite bytes = ⟨f.contents ++ bytes, f.contents.length + bytes.length⟩ := by
  rw [fwrite, h, List.take_length, Nat.sub_self, List.replicate_zero, List.append_nil,
    List.drop_of_length_le (Nat.le_add_right _ _), List.append_nil]

theorem fwrite_fopen (bytes : List UInt8) : fopen.fwrite bytes = ⟨bytes, bytes.length⟩ := by
  rw [fwrite_end rfl]
  simp only [fopen, List.nil_append, List.length_nil, Nat.zero_add]

/-- Writing at the beginning replaces. -/
theorem fwrite_start (old behind bytes : List UInt8) (h : bytes.length = old.length) :
    fwrite ⟨old ++ behind, 0⟩ bytes = ⟨bytes ++ behind, bytes.length⟩ := by
  rw [fwrite, h, Nat.zero_add, List.drop_left, List.take_zero, Nat.zero_sub, List.replicate_zero,
    List.nil_append, List.nil_append]

end OutFile

end AudioProc
