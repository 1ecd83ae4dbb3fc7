import Mathlib.Data.List.Induction
import Mathlib.Data.List.TakeWhile
import Mathlib.Data.Nat.Basic
import Mathlib.Tactic.Common

/-!
# C strings in a buffer

A buffer of fixed size that is used for one NUL-terminated string after the other. `strncpy`
of a string with its own length writes no NUL behind it, so that it only overlays what the
buffer held: `overlay d s` is `d` with the part of `s` that is longer.

* `holds_strncpy`: on strings, `strncpy` is `overlay`;
* `overlays_eq_last_iff`: after several strings the buffer holds the last one alone if and
  only if none of them is longer;
* `getLast?_overlays`: strings that end alike leave a string that ends so.
-/

namespace AudioProc.CString

universe u

/-! ## Overlaying -/

section Overlay

variable {α : Type u}

/-- `d` over the front of `s`. -/
def overlay (d s : List α) : List α := d ++ s.drop d.length

/-- Several strings, the first one at the bottom. -/
def overlays (ds : List (List α)) : List α := ds.foldl (fun s d => overlay d s) []

theorem overlays_concat (ds : List (List α)) (d : List α) :
    overlays (ds ++ [d]) = d ++ (overlays ds).drop d.length := by
  rw [overlays, List.foldl_append]
  rfl

theorem length_overlay (d s : List α) : (overlay d s).length = max d.length s.length := by
  rw [overlay, List.length_append, List.length_drop]
  omega

/-- As long as the longest of them. -/
theorem length_overlays_le_iff {ds : List (List α)} {n : ℕ} :
    (overlays ds).length ≤ n ↔ ∀ d ∈ ds, d.length ≤ n := by
  induction ds using List.reverseRecOn with
  | nil =>
      constructor
      · intro _ d hd
        exact absurd hd List.not_mem_nil
      · intro _
        exact Nat.zero_le n
  | append_singleton ds d ih =>
      rw [overlays_concat, ← overlay, length_overlay, Nat.max_le, ih]
      constructor
      · rintro ⟨hd, hds⟩ e he
        rcases List.mem_append.mp he with hmem | hmem
        · exact hds e hmem
        · rw [List.mem_singleton.mp hmem]
          exact hd
      · intro h
        constructor
        · exact h d (by simp)
        · intro e he
          exact h e (by simp [he])

/-- The last string is all that is left where none of them is longer. -/
theorem overlays_eq_last_iff {ds : List (List α)} {d : List α} (h : ds.getLast? = some d) :
    overlays ds = d ↔ ∀ e ∈ ds, e.length ≤ d.length := by
  rcases List.getLast?_eq_some_iff.mp h with ⟨before, rfl⟩
  -- nothing of the strings below sticks out behind the last one
  rw [overlays_concat, List.append_right_eq_self, List.drop_eq_nil_iff, length_overlays_le_iff]
  constructor
  · intro hle e he
    rcases List.mem_append.mp he with hmem | hmem
    · exact hle e hmem
    · rw [List.mem_singleton.mp hmem]
  · intro hle e he
    exact hle e (List.mem_append_left _ he)

theorem getLast?_overlays {ds : List (List α)} {a : α} (hds : ds ≠ [])
    (h : ∀ d ∈ ds, d.getLast? = some a) : (overlays ds).getLast? = some a := by
  induction ds using List.reverseRecOn with
  | nil => exact absurd rfl hds
  | append_singleton ds d ih =>
      rw [overlays_concat, List.getLast?_append, List.getLast?_drop]
      split_ifs with hshort
      · -- nothing sticks out behind the last string
        exact h d (by simp)
      · have hne : ds ≠ [] := by
          rintro rfl
          exact hshort (Nat.zero_le _)
        rw [ih hne fun e he => h e (by simp [he])]
        rfl

end Overlay

/-! ## Buffers -/

/-- A `char` array of `N` bytes. -/
structure Buffer (N : ℕ) where
  bytes : List UInt8
  length_bytes : bytes.length = N
deriving DecidableEq

/-- The string that starts at the first of the bytes: those in front of the first NUL. -/
def cString (bytes : List UInt8) : List UInt8 := bytes.takeWhile (· ≠ 0)

namespace Buffer

variable {N : ℕ}

/-- An array that was initialised with `""`. -/
def empty (N : ℕ) : Buffer N where
  bytes := List.replicate N 0
  length_bytes := List.length_replicate

/-- The string in the buffer. Without a NUL a reader would run past the end. -/
def string (b : Buffer N) : Option (List UInt8) :=
  if 0 ∈ b.bytes then some (cString b.bytes) else none

/-- `strncpy`: `n` bytes are written, NULs where the string at `src` has come to its end.
Writing past the end of the buffer is not defined. -/
def strncpy (b : Buffer N) (src : List UInt8) (n : ℕ) : Option (Buffer N) :=
  if h : n ≤ N then
    some {
      bytes := (cString src ++ List.replicate n 0).take n ++ b.bytes.drop n
      length_bytes := by
        rw [List.length_append, List.length_take, List.length_append, List.length_replicate,
          List.length_drop, b.length_bytes]
        omega }
  else
    none

/-- The buffer holds the string `s` and nothing but NULs behind it. -/
structure Holds (b : Buffer N) (s : List UInt8) : Prop where
  bytes : b.bytes = s ++ List.replicate (N - s.length) 0
  nul : 0 ∉ s
  fits : s.length < N

theorem holds_empty (h : 0 < N) : (empty N).Holds [] where
  bytes := rfl
  nul := List.not_mem_nil
  fits := h

theorem Holds.string_eq {b : Buffer N} {s : List UInt8} (h : b.Holds s) : b.string = some s := by
  have hfits := h.fits
  -- there is room for at least one NUL
  obtain ⟨k, hk⟩ : ∃ k, N - s.length = k + 1 := ⟨N - s.length - 1, by omega⟩
  have hnul : 0 ∈ b.bytes := by
    rw [h.bytes, hk, List.replicate_succ]
    simp
  have hstring : cString b.bytes = s := by
    rw [cString, h.bytes, List.takeWhile_append_of_pos, hk, List.replicate_succ]
    · simp
    · intro c hc
      exact decide_eq_true (fun hzero => h.nul (hzero ▸ hc))
  rw [string, if_pos hnul, hstring]

theorem cString_of_not_mem {s : List UInt8} (h : 0 ∉ s) : cString s = s := by
  rw [cString, List.takeWhile_eq_self_iff]
  intro c hc
  exact decide_eq_true (fun hzero => h (hzero ▸ hc))

/-- **`strncpy` overlays** a string with another one. -/
theorem holds_strncpy {b : Buffer N} {s d : List UInt8} (h : b.Holds s) (hd : 0 ∉ d)
    (hfits : d.length < N) : ∃ b', b.strncpy d d.length = some b' ∧ b'.Holds (overlay d s) := by
  refine ⟨_, dif_pos (Nat.le_of_lt hfits), ?_, ?_, ?_⟩
  · have htake : (cString d ++ List.replicate d.length 0).take d.length = d := by
      rw [cString_of_not_mem hd, List.take_left]
    have hlength := length_overlay d s
    have hs := h.fits
    simp only [htake, h.bytes, overlay, List.append_assoc, List.drop_append, List.drop_replicate]
    congr 3
    rw [← overlay, length_overlay]
    omega
  · rw [overlay, List.mem_append]
    rintro (hmem | hmem)
    · exact hd hmem
    · exact h.nul (List.mem_of_mem_drop hmem)
  · rw [length_overlay]
    exact Nat.max_lt.mpr ⟨hfits, h.fits⟩

end Buffer

end AudioProc.CString
