import Mathlib.Data.List.Basic
import Mathlib.Data.Int.Order.Basic
import Mathlib.Tactic.Common

/-!
# Reading a regular file with C stdio

An open stream over a regular file: the bytes of the file, the position and the
end-of-file indicator. `fgetc` yields -1 past the end and sets the indicator; `fseek`
forward succeeds also beyond the end and clears it. `long` is 64 bits wide, so positions
do not overflow.

`rest` is what can still be read, and bytes that are there are read by advancing over them
(`fgetc_of_rest`, `discard_eq_advance`). Reading never moves backwards (`Forward`), and a
read that has not met the end has moved by what it read.
-/

namespace AudioProc

/-- A stream opened for reading. -/
structure CFile where
  contents : List UInt8
  pos : ℕ
  eof : Bool
deriving DecidableEq

namespace CFile

/-- A file opened for reading. -/
def fopen (contents : List UInt8) : CFile where
  contents := contents
  pos := 0
  eof := false

/-- `fgetc` -/
def fgetc (f : CFile) : ℤ × CFile :=
  match f.contents[f.pos]? with
  | some b => (b.toNat, { f with pos := f.pos + 1 })
  | none => (-1, { f with eof := true })

/-- The stream after `n` calls of `fgetc`. -/
def discard : ℕ → CFile → CFile
  | 0, f => f
  | n + 1, f => discard n f.fgetc.2

/-- `fread` of `n` bytes: what was read, which is less than asked for only at the end. -/
def fread (f : CFile) (n : ℕ) : List UInt8 × CFile :=
  let bytes := (f.contents.drop f.pos).take n
  (bytes, { f with
    pos := f.pos + bytes.length
    eof := f.eof || decide (bytes.length < n) })

/-- `fseek(…, n, SEEK_CUR)` -/
def fseekCur (f : CFile) (n : ℕ) : CFile :=
  { f with
    pos := f.pos + n
    eof := false }

/-- `fseek(…, n, SEEK_SET)` -/
def fseekSet (f : CFile) (n : ℕ) : CFile :=
  { f with
    pos := n
    eof := false }

/-- `ftell` -/
def ftell (f : CFile) : ℕ := f.pos

/-- The bytes that can still be read. -/
def rest (f : CFile) : List UInt8 := f.contents.drop f.pos

/-! ## Reading -/

theorem fread_rest (f : CFile) (n : ℕ) : (f.fread n).2.rest = f.rest.drop n := by
  have hdrop : (f.fread n).2.rest = f.rest.drop (f.rest.take n).length := by
    rw [rest, rest, List.drop_drop]
    rfl
  rw [hdrop, List.length_take]
  rcases Nat.le_total n f.rest.length with hle | hge
  · rw [Nat.min_eq_left hle]
  · rw [Nat.min_eq_right hge, List.drop_length, List.drop_of_length_le hge]

/-- The end-of-file indicator stays set until the next seek. -/
theorem eof_discard {n : ℕ} {f : CFile} (h : f.eof = true) : (discard n f).eof = true := by
  induction n generalizing f with
  | zero => exact h
  | succ n ih =>
      apply ih
      unfold fgetc
      cases f.contents[f.pos]? with
      | some b => exact h
      | none => rfl

/-! ## Moving inside the file -/

/-- The stream `n` bytes further on. -/
def advance (f : CFile) (n : ℕ) : CFile :=
  { f with pos := f.pos + n }

@[simp] theorem advance_pos (f : CFile) (n : ℕ) : (f.advance n).pos = f.pos + n := rfl

@[simp] theorem advance_eof (f : CFile) (n : ℕ) : (f.advance n).eof = f.eof := rfl

@[simp] theorem advance_contents (f : CFile) (n : ℕ) : (f.advance n).contents = f.contents := rfl

@[simp] theorem advance_zero (f : CFile) : f.advance 0 = f := rfl

@[simp] theorem advance_advance (f : CFile) (m n : ℕ) :
    (f.advance m).advance n = f.advance (m + n) := by
  simp only [advance, Nat.add_assoc]

@[simp] theorem rest_advance (f : CFile) (n : ℕ) : (f.advance n).rest = f.rest.drop n := by
  rw [rest, rest, List.drop_drop]
  rfl

theorem rest_advance_append {f : CFile} (bytes : List UInt8) {more : List UInt8}
    (h : f.rest = bytes ++ more) : (f.advance bytes.length).rest = more := by
  rw [rest_advance, h, List.drop_left]

theorem fgetc_of_rest {f : CFile} {b : UInt8} {more : List UInt8} (h : f.rest = b :: more) :
    f.fgetc = ((b.toNat : ℤ), f.advance 1) := by
  have hget : f.contents[f.pos]? = some b := by
    have hhead : (f.contents.drop f.pos)[0]? = some b := by
      rw [← rest, h]
      rfl
    rwa [List.getElem?_drop, Nat.add_zero] at hhead
  unfold fgetc
  rw [hget]
  rfl

/-- At the end there is no byte to read. -/
theorem fgetc_of_rest_nil {f : CFile} (h : f.rest = []) :
    f.fgetc = (-1, { f with eof := true }) := by
  have hnone : f.contents[f.pos]? = none := by
    rw [List.getElem?_eq_none_iff]
    exact List.drop_eq_nil_iff.mp h
  unfold fgetc
  rw [hnone]

theorem rest_fgetc (f : CFile) : f.fgetc.2.rest = f.rest.drop 1 := by
  cases hrest : f.rest with
  | nil =>
      rw [fgetc_of_rest_nil hrest]
      exact hrest
  | cons b more =>
      rw [fgetc_of_rest hrest, rest_advance, hrest]

/-- Bytes that are there are skipped one by one. -/
theorem discard_eq_advance {n : ℕ} {f : CFile} (h : n ≤ f.rest.length) :
    discard n f = f.advance n := by
  induction n generalizing f with
  | zero => rfl
  | succ n ih =>
      cases hrest : f.rest with
      | nil =>
          rw [hrest] at h
          exact absurd h (Nat.not_succ_le_zero n)
      | cons b more =>
          rw [hrest] at h
          have hlen : n ≤ (f.advance 1).rest.length := by
            rw [rest_advance, hrest]
            exact Nat.le_of_succ_le_succ h
          rw [discard, fgetc_of_rest hrest, ih hlen, advance_advance, Nat.add_comm]

/-- Where no byte is left, a read sets the indicator. -/
theorem discard_of_rest_lt {n : ℕ} {f : CFile} (h : f.rest.length < n) :
    (discard n f).eof = true := by
  induction n generalizing f with
  | zero => exact absurd h (Nat.not_lt_zero _)
  | succ n ih =>
      cases hrest : f.rest with
      | nil =>
          rw [discard]
          apply eof_discard
          rw [fgetc_of_rest_nil hrest]
      | cons b more =>
          rw [hrest] at h
          rw [discard, fgetc_of_rest hrest]
          apply ih
          rw [rest_advance, hrest]
          exact Nat.lt_of_succ_lt_succ h

theorem fseekCur_eq_advance {f : CFile} (h : f.eof = false) (n : ℕ) :
    f.fseekCur n = f.advance n := by
  rw [fseekCur, advance, h]

/-! ## Moving forward -/

/-- The same file, at the same position or further on. -/
structure Forward (f g : CFile) : Prop where
  contents : g.contents = f.contents
  pos_le : f.pos ≤ g.pos

theorem Forward.refl (f : CFile) : Forward f f := ⟨rfl, Nat.le_refl _⟩

theorem Forward.trans {f g h : CFile} (hfg : Forward f g) (hgh : Forward g h) : Forward f h :=
  ⟨hgh.contents.trans hfg.contents, Nat.le_trans hfg.pos_le hgh.pos_le⟩

theorem forward_fgetc (f : CFile) : Forward f f.fgetc.2 := by
  unfold fgetc
  cases f.contents[f.pos]? with
  | some b => exact ⟨rfl, Nat.le_succ _⟩
  | none => exact ⟨rfl, Nat.le_refl _⟩

theorem forward_discard (n : ℕ) (f : CFile) : Forward f (discard n f) := by
  induction n generalizing f with
  | zero => exact Forward.refl f
  | succ n ih => exact (forward_fgetc f).trans (ih _)

theorem forward_fseekCur (f : CFile) (n : ℕ) : Forward f (f.fseekCur n) :=
  ⟨rfl, Nat.le_add_right _ _⟩

/-- Bytes read without meeting the end lie inside the file. -/
theorem discard_of_not_eof {n : ℕ} {f : CFile} (hn : 0 < n) (h : (discard n f).eof = false) :
    (discard n f).pos = f.pos + n ∧ f.pos + n ≤ f.contents.length := by
  induction n generalizing f with
  | zero => exact absurd hn (Nat.lt_irrefl 0)
  | succ n ih =>
      rw [discard] at h ⊢
      cases hbyte : f.contents[f.pos]? with
      | none =>
          -- the first byte is missing: the indicator is set and stays set
          have heof : f.fgetc.2.eof = true := by simp [fgetc, hbyte]
          rw [eof_discard heof] at h
          exact absurd h (by decide)
      | some b =>
          have hget : f.fgetc.2 = { f with pos := f.pos + 1 } := by simp [fgetc, hbyte]
          have hlt : f.pos < f.contents.length := (List.getElem?_eq_some_iff.mp hbyte).1
          rw [hget] at h ⊢
          rcases Nat.eq_zero_or_pos n with rfl | hpos
          · exact ⟨rfl, hlt⟩
          · rcases ih hpos h with ⟨hmoved, hinside⟩
            constructor
            · rw [hmoved]
              simp only
              omega
            · simp only at hinside
              omega

end CFile

end AudioProc
