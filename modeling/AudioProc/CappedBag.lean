import Mathlib.Algebra.BigOperators.Group.List.Basic
import Mathlib.Algebra.GroupWithZero.Nat
import Mathlib.Data.List.Induction
import Mathlib.Data.List.Nodup
import Mathlib.Tactic.Common

/-!
# Bags with a limit on the distinct values

A bag that counts values, but only so many different ones: it is read off the sequence of
values it was offered.

* `kept N l` is the list of the first `N` distinct values of `l`, and `kept_concat_cases`
  says what offering one more value does to it;
* `total N l` is how many of the values offered were counted; without more than `N`
  distinct values it is all of them (`total_eq_length`).
-/

namespace AudioProc.CappedBag

universe u

variable {α : Type u} [DecidableEq α] {N : ℕ}

/-! ## Distinct values in the order of their first occurrence -/

theorem eraseDups_concat_of_mem {l : List α} {x : α} (h : x ∈ l) :
    (l ++ [x]).eraseDups = l.eraseDups := by
  rw [List.eraseDups_append]
  simp [List.removeAll, h]

theorem eraseDups_concat_of_not_mem {l : List α} {x : α} (h : x ∉ l) :
    (l ++ [x]).eraseDups = l.eraseDups ++ [x] := by
  rw [List.eraseDups_append]
  simp [List.removeAll, h, List.eraseDups_cons]

theorem nodup_eraseDups (l : List α) : l.eraseDups.Nodup := by
  induction l using List.reverseRecOn with
  | nil => exact List.nodup_nil
  | append_singleton l x ih =>
      by_cases hx : x ∈ l
      · rw [eraseDups_concat_of_mem hx]
        exact ih
      · rw [eraseDups_concat_of_not_mem hx, ← List.concat_eq_append]
        apply ih.concat
        rwa [List.mem_eraseDups]

/-- The first `N` distinct values offered. -/
def kept (N : ℕ) (l : List α) : List α := l.eraseDups.take N

@[simp] theorem kept_nil : kept N ([] : List α) = [] := by
  simp [kept]

theorem nodup_kept (l : List α) : (kept N l).Nodup :=
  (nodup_eraseDups l).sublist (List.take_sublist _ _)

theorem length_kept_le (l : List α) : (kept N l).length ≤ N := by
  rw [kept, List.length_take]
  exact Nat.min_le_left _ _

theorem mem_of_mem_kept {l : List α} {x : α} (h : x ∈ kept N l) : x ∈ l :=
  List.mem_eraseDups.mp (List.mem_of_mem_take h)

/-- Below the limit every value offered is kept. -/
theorem kept_eq_eraseDups {l : List α} (h : (kept N l).length < N) :
    kept N l = l.eraseDups := by
  rw [kept, List.length_take] at h
  exact List.take_of_length_le (by omega)

/-- Offering one more value: it is known, or it is new and there is no room, or it is new
and kept from now on. -/
theorem kept_concat_cases (N : ℕ) (l : List α) (x : α) :
    (x ∈ kept N l ∧ kept N (l ++ [x]) = kept N l) ∨
    (x ∉ kept N l ∧ (kept N l).length = N ∧ kept N (l ++ [x]) = kept N l) ∨
    (x ∉ l ∧ (kept N l).length < N ∧ kept N (l ++ [x]) = kept N l ++ [x]) := by
  by_cases hx : x ∈ l
  · have hsame : kept N (l ++ [x]) = kept N l := by
      rw [kept, kept, eraseDups_concat_of_mem hx]
    by_cases hkept : x ∈ kept N l
    · exact Or.inl ⟨hkept, hsame⟩
    · -- below the limit it would have been kept
      refine Or.inr (Or.inl ⟨hkept, ?_, hsame⟩)
      by_contra hlength
      have hroom : (kept N l).length < N := Nat.lt_of_le_of_ne (length_kept_le l) hlength
      rw [kept_eq_eraseDups hroom, List.mem_eraseDups] at hkept
      exact hkept hx
  · have hconcat : kept N (l ++ [x]) = (l.eraseDups ++ [x]).take N := by
      rw [kept, eraseDups_concat_of_not_mem hx]
    have hnot : x ∉ kept N l := mt mem_of_mem_kept hx
    rcases Nat.lt_or_ge l.eraseDups.length N with hroom | hfull
    · right
      right
      have hall : kept N l = l.eraseDups := List.take_of_length_le (Nat.le_of_lt hroom)
      refine ⟨hx, by rwa [hall], ?_⟩
      rw [hconcat, hall]
      apply List.take_of_length_le
      rw [List.length_append, List.length_singleton]
      exact hroom
    · right
      left
      refine ⟨hnot, ?_, ?_⟩
      · rw [kept, List.length_take]
        exact Nat.min_eq_left hfull
      · rw [hconcat, List.take_append_of_le_length hfull]
        rfl

/-! ## How many were counted -/

/-- How many of the values offered are among the kept ones. -/
def total (N : ℕ) (l : List α) : ℕ := ((kept N l).map fun b => l.count b).sum

@[simp] theorem total_nil : total N ([] : List α) = 0 := by
  simp [total]

theorem sum_count_concat (ks l : List α) (x : α) :
    (ks.map fun b => (l ++ [x]).count b).sum = (ks.map fun b => l.count b).sum + ks.count x := by
  induction ks with
  | nil => rfl
  | cons b ks ih =>
      rw [List.map_cons, List.sum_cons, ih, List.map_cons, List.sum_cons, List.count_append,
        List.count_singleton, List.count_cons]
      by_cases hb : x = b
      · simp [hb]
        omega
      · have hb' : ¬ b = x := fun h => hb h.symm
        simp [hb, hb']
        omega

/-- A value offered adds one to the total exactly when it is kept. -/
theorem total_concat (l : List α) (x : α) :
    total N (l ++ [x]) = total N l + if x ∈ kept N (l ++ [x]) then 1 else 0 := by
  rw [total, sum_count_concat]
  rcases kept_concat_cases N l x with ⟨hx, hk⟩ | ⟨hx, -, hk⟩ | ⟨hx, -, hk⟩
  · rw [hk, if_pos hx, List.count_eq_one_of_mem (nodup_kept l) hx]
    rfl
  · rw [hk, if_neg hx, List.count_eq_zero_of_not_mem hx]
    rfl
  · -- the new value counts once, and was not counted before
    have hnot : x ∉ kept N l := mt mem_of_mem_kept hx
    rw [hk, if_pos (by simp), List.map_append, List.sum_append, List.count_append,
      List.count_eq_zero_of_not_mem hnot]
    simp [total, List.count_eq_zero_of_not_mem hx]

theorem total_le_length (l : List α) : total N l ≤ l.length := by
  induction l using List.reverseRecOn with
  | nil => simp
  | append_singleton l x ih =>
      rw [total_concat, List.length_append, List.length_singleton]
      split_ifs <;> omega

/-- Nothing is lost as long as there are not too many distinct values. -/
theorem total_eq_length {l : List α} (h : l.eraseDups.length ≤ N) : total N l = l.length := by
  induction l using List.reverseRecOn with
  | nil => simp
  | append_singleton l x ih =>
      have hprefix : l.eraseDups.length ≤ N := by
        rw [List.eraseDups_append, List.length_append] at h
        omega
      have hx : x ∈ kept N (l ++ [x]) := by
        rw [kept, List.take_of_length_le h, List.mem_eraseDups]
        simp
      rw [total_concat, if_pos hx, ih hprefix, List.length_append, List.length_singleton]

end AudioProc.CappedBag
