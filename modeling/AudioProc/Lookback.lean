import Mathlib.Data.Nat.ModEq

/-!
# Circular arrays read backwards

An array of `N` slots is overwritten round and round: slot `i` is written, then `i`
advances and wraps. Read from the write position backwards it holds the last `N` values
written. `Holds v i f` says so: slot `back N i d` holds `f d`, the value written `d + 1`
writes ago.

`Holds.write` is the step: after the write the newest value is the one written and every
other one is a write older. `prev_back_next` walks back one slot at a time from the slot
just written.

`recent v i n` lists the last `n` values written, newest first, with the same step
(`recent_write`) for arrays that are only partly filled.
-/

namespace AudioProc.Lookback

universe u

variable {α : Type u} {N : ℕ}

/-- The slot written `d + 1` writes ago when the next write goes to slot `i`. -/
def back (N i d : ℕ) : ℕ := (i + N - 1 - d) % N

/-- The write position after `i`. -/
def next (N i : ℕ) : ℕ := if i < N - 1 then i + 1 else 0

/-- The position before `i`, wrapping at 0. -/
def prev (N i : ℕ) : ℕ := if i > 0 then i - 1 else N - 1

theorem back_lt {i d : ℕ} (hN : 0 < N) : back N i d < N := Nat.mod_lt _ hN

theorem next_lt {i : ℕ} (hN : 0 < N) : next N i < N := by
  unfold next
  split_ifs <;> omega

theorem prev_lt {i : ℕ} (hi : i < N) : prev N i < N := by
  unfold prev
  split_ifs <;> omega

/-- `back` crosses the start of the array at most once. -/
theorem back_eq {i d : ℕ} (hi : i < N) (hd : d < N) :
    back N i d = if d < i then i - 1 - d else i + N - 1 - d := by
  unfold back
  split_ifs with h
  · -- the slot is before `i` in the array
    rw [show i + N - 1 - d = i - 1 - d + N by omega, Nat.add_mod_right]
    exact Nat.mod_eq_of_lt (by omega)
  · exact Nat.mod_eq_of_lt (by omega)

/-- Once `i` has advanced, the slot just written is the newest one. -/
theorem back_next_zero {i : ℕ} (hi : i < N) : back N (next N i) 0 = i := by
  rw [back_eq (next_lt (by omega)) (by omega)]
  unfold next
  split_ifs <;> omega

/-- Once `i` has advanced, every older slot is one write older. -/
theorem back_next_succ {i d : ℕ} (hi : i < N) (hd : d + 1 < N) :
    back N (next N i) (d + 1) = back N i d := by
  rw [back_eq (next_lt (by omega)) hd, back_eq hi (by omega)]
  unfold next
  split_ifs <;> omega

/-- Walking back from the write position one slot at a time meets the values in order. -/
theorem prev_back_next {i d : ℕ} (hd : d + 1 < N) :
    prev N (back N (next N i) d) = back N (next N i) (d + 1) := by
  rw [back_eq (next_lt (by omega)) hd, back_eq (next_lt (by omega)) (by omega)]
  unfold prev next
  split_ifs <;> omega

/-- The slot about to be overwritten is not among the newer ones. -/
theorem back_ne {i d : ℕ} (hi : i < N) (hd : d + 1 < N) : back N i d ≠ i := by
  rw [back_eq hi (by omega)]
  split_ifs <;> omega

/-- Read backwards from write position `i`, the array holds `f 0, f 1, …, f (N - 1)`. -/
def Holds (v : Vector α N) (i : ℕ) (f : ℕ → α) : Prop :=
  ∀ d < N, v[back N i d]? = some (f d)

/-- An array filled with one value holds a constant history, whatever the position. -/
theorem holds_replicate {x : α} (i : ℕ) {f : ℕ → α} (hf : ∀ d, f d = x) :
    Holds (Vector.replicate N x) i f := by
  intro d hd
  simp [back_lt (Nat.zero_lt_of_lt hd), hf]

/-- Reading through an index that walked back `d` slots. -/
theorem Holds.get {v : Vector α N} {i : ℕ} {f : ℕ → α} (h : Holds v i f) {d : ℕ}
    (hd : d < N) (j : Fin N) (hj : j.val = back N i d) : v[j] = f d := by
  have hread := h d hd
  rw [← hj, Vector.getElem?_eq_getElem j.isLt] at hread
  exact Option.some.inj hread

/-- Writing and advancing shifts the history by one: `g` is `f` with the value written
put in front. -/
theorem Holds.write {v : Vector α N} {i : ℕ} {f g : ℕ → α} (h : Holds v i f) (hi : i < N)
    (x : α) (hx : g 0 = x) (hg : ∀ d, g (d + 1) = f d) :
    Holds (v.set i x) (next N i) g := by
  intro d hd
  cases d with
  | zero => simp [back_next_zero hi, hx]
  | succ d =>
      -- an older value: its slot is not the one written
      rw [back_next_succ hi hd, Vector.getElem?_set_ne _ (back_ne hi hd).symm, hg]
      exact h d (by omega)

/-- The last `n` values written, newest first. -/
def recent (v : Vector α N) (hN : 0 < N) (i n : ℕ) : List α :=
  (List.range n).map fun d => v[(⟨back N i d, back_lt hN⟩ : Fin N)]

@[simp] theorem length_recent (v : Vector α N) (hN : 0 < N) (i n : ℕ) :
    (recent v hN i n).length = n := by
  simp [recent]

theorem recent_succ (v : Vector α N) (hN : 0 < N) (i n : ℕ) :
    recent v hN i (n + 1) = recent v hN i n ++ [v[(⟨back N i n, back_lt hN⟩ : Fin N)]] := by
  simp [recent, List.range_succ]

/-- The write step, as long as the slot written is not one of those listed. -/
theorem recent_write (v : Vector α N) {i : ℕ} (hi : i < N) {n : ℕ} (hn : n < N) (x : α) :
    recent (v.set i x) (by omega) (next N i) (n + 1) =
      x :: recent v (Nat.zero_lt_of_lt hi) i n := by
  have hpos : 0 < N := Nat.zero_lt_of_lt hi
  have hold : ∀ d ∈ List.range n,
      (v.set i x)[(⟨back N (next N i) (d + 1), back_lt hpos⟩ : Fin N)] =
        v[(⟨back N i d, back_lt hpos⟩ : Fin N)] := by
    intro d hd
    have hdn : d + 1 < N := by
      have := List.mem_range.mp hd
      omega
    simp only [Fin.getElem_fin, back_next_succ hi hdn]
    exact Vector.getElem_set_ne _ _ (back_ne hi hdn).symm
  have hnew : (v.set i x)[(⟨back N (next N i) 0, back_lt hpos⟩ : Fin N)] = x := by
    simp only [Fin.getElem_fin, back_next_zero hi, Vector.getElem_set_self]
  rw [recent, List.range_succ_eq_map, List.map_cons, List.map_map, hnew]
  exact congrArg (x :: ·) (List.map_congr_left hold)

end AudioProc.Lookback
