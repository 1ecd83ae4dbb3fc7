import Mathlib.Data.Int.Notation
import Mathlib.Data.List.Basic
import Mathlib.Tactic.Common

/-!
# Decimal numbers as bytes

The digits of a number in ASCII, with a sign in front where it is negative.

* `value_digits`: the number is read back from its digits;
* `ofInt_inj`, `not_mem_ofInt`: different numbers are written differently, and no byte but a
  digit or the sign is written;
* `append_separator_inj`: behind the last separator of a text stands what was put there;
* `numbers_lines`: numbers written on a line each are read back.
-/

namespace AudioProc.Decimal

/-! ## Digits -/

/-- The byte of a digit. -/
def digit (c : Char) : UInt8 := UInt8.ofNat c.toNat

/-- The decimal digits of a number, without leading zeros. -/
def digits (n : ℕ) : List UInt8 := (Nat.toDigits 10 n).map digit

/-- One more digit of a number that is read. -/
def readDigit (n : ℕ) (b : UInt8) : ℕ := 10 * n + (b.toNat - 48)

/-- The number that the digits stand for. -/
def value (bytes : List UInt8) : ℕ := bytes.foldl readDigit 0

theorem toNat_digit {c : Char} (h : c.isDigit = true) : (digit c).toNat = c.toNat := by
  have hrange : '0'.toNat ≤ c.toNat ∧ c.toNat ≤ '9'.toNat := Char.isDigit_iff_toNat.mp h
  have hnine : '9'.toNat = 57 := rfl
  rw [digit, UInt8.toNat_ofNat']
  omega

theorem isDigit_of_mem {n : ℕ} {c : Char} (h : c ∈ Nat.toDigits 10 n) : c.isDigit = true :=
  Nat.isDigit_of_mem_toDigits (by decide) (by decide) h

theorem mem_digits {n : ℕ} {b : UInt8} (h : b ∈ digits n) : 48 ≤ b.toNat ∧ b.toNat ≤ 57 := by
  rcases List.mem_map.mp h with ⟨c, hc, rfl⟩
  rw [toNat_digit (isDigit_of_mem hc)]
  exact Char.isDigit_iff_toNat.mp (isDigit_of_mem hc)

theorem digits_ne_nil (n : ℕ) : digits n ≠ [] := by
  intro h
  exact Nat.toDigits_ne_nil (List.map_eq_nil_iff.mp h)

/-- Reading goes on from the number read so far. -/
theorem foldl_digits (cs : List Char) (hcs : ∀ c ∈ cs, c.isDigit = true) (n : ℕ) :
    (cs.map digit).foldl readDigit n = Nat.ofDigitChars 10 cs n := by
  induction cs generalizing n with
  | nil => rfl
  | cons c cs ih =>
      have hc := toNat_digit (hcs c List.mem_cons_self)
      rw [List.map_cons, List.foldl_cons, ih fun c' hc' => hcs c' (List.mem_cons_of_mem c hc'),
        Nat.ofDigitChars_cons, readDigit, hc]
      rfl

/-- **The number is read back** from its digits. -/
theorem value_digits (n : ℕ) : value (digits n) = n := by
  rw [value, digits, foldl_digits _ fun c hc => isDigit_of_mem hc]
  exact Nat.ofDigitChars_ten_toDigits

theorem digits_inj {m n : ℕ} (h : digits m = digits n) : m = n := by
  have hvalue := congrArg value h
  rwa [value_digits, value_digits] at hvalue

/-! ## Integers -/

/-- The bytes of an integer. -/
def ofInt (i : ℤ) : List UInt8 :=
  if 0 ≤ i then digits i.toNat else 45 :: digits (-i).toNat

theorem not_mem_digits {n : ℕ} {b : UInt8} (h : b.toNat < 48 ∨ 57 < b.toNat) :
    b ∉ digits n := by
  intro hb
  have hrange := mem_digits hb
  omega

theorem not_mem_ofInt {i : ℤ} {b : UInt8} (h : b.toNat < 45 ∨ 57 < b.toNat) : b ∉ ofInt i := by
  have hdigit : ∀ n, b ∉ digits n := fun n => not_mem_digits (by omega)
  unfold ofInt
  split_ifs with hi
  · exact hdigit _
  · intro hb
    rcases List.mem_cons.mp hb with rfl | hmem
    · have hsign : (45 : UInt8).toNat = 45 := rfl
      omega
    · exact hdigit _ hmem

/-- The sign is no digit. -/
theorem sign_append_ne {m n : ℕ} {bytes : List UInt8} : 45 :: digits m ≠ digits n ++ bytes := by
  intro h
  cases hn : digits n with
  | nil => exact digits_ne_nil n hn
  | cons b bs =>
      rw [hn, List.cons_append] at h
      have hb : b ∈ digits n := hn ▸ List.mem_cons_self
      rw [← (List.cons.inj h).1] at hb
      exact not_mem_digits (Or.inl (by decide)) hb

theorem ofInt_inj {i j : ℤ} (h : ofInt i = ofInt j) : i = j := by
  unfold ofInt at h
  split_ifs at h with hi hj hj
  · have hnat := digits_inj h
    omega
  · -- a sign on one side only
    rw [← List.append_nil (digits i.toNat)] at h
    exact absurd h.symm sign_append_ne
  · rw [← List.append_nil (digits j.toNat)] at h
    exact absurd h sign_append_ne
  · have hnat := digits_inj (List.cons.inj h).2
    omega

/-! ## Behind a separator -/

universe u

/-- What stands behind the last separator is known from the whole text. -/
theorem append_separator_inj {α : Type u} {sep : α} {front front' back back' : List α}
    (hback : sep ∉ back) (hback' : sep ∉ back')
    (h : front ++ sep :: back = front' ++ sep :: back') : front = front' ∧ back = back' := by
  rcases List.append_eq_append_iff.mp h with ⟨more, rfl, hmore⟩ | ⟨more, rfl, hmore⟩
  · cases more with
    | nil => exact ⟨(List.append_nil _).symm, (List.cons.inj hmore).2⟩
    | cons c cs =>
        -- the separator of one text would be among what stands behind that of the other
        rcases List.cons.inj hmore with ⟨-, rfl⟩
        exact absurd (List.mem_append_right cs List.mem_cons_self) hback
  · cases more with
    | nil => exact ⟨List.append_nil _, (List.cons.inj hmore).2.symm⟩
    | cons c cs =>
        rcases List.cons.inj hmore with ⟨-, rfl⟩
        exact absurd (List.mem_append_right cs List.mem_cons_self) hback'

/-! ## Lines -/

/-- The byte of a line break. -/
def newline : UInt8 := 10

/-- A number on a line of its own. -/
def line (n : ℕ) : List UInt8 := digits n ++ [newline]

/-- A byte of a text that is read: the numbers of the lines that are complete, and the one
that is begun. -/
def readByte (s : List ℕ × ℕ) (b : UInt8) : List ℕ × ℕ :=
  if b = newline then (s.1 ++ [s.2], 0) else (s.1, readDigit s.2 b)

/-- The numbers on the lines of a text. -/
def numbers (bytes : List UInt8) : List ℕ := (bytes.foldl readByte ([], 0)).1

theorem foldl_readByte_digits {bytes : List UInt8} (h : newline ∉ bytes) (ns : List ℕ) (n : ℕ) :
    bytes.foldl readByte (ns, n) = (ns, bytes.foldl readDigit n) := by
  induction bytes generalizing n with
  | nil => rfl
  | cons b bytes ih =>
      rcases not_or.mp (mt List.mem_cons.mpr h) with ⟨hb, hrest⟩
      rw [List.foldl_cons, List.foldl_cons, readByte, if_neg (Ne.symm hb), ih hrest]

theorem foldl_readByte_line (ns : List ℕ) (n : ℕ) :
    (line n).foldl readByte (ns, 0) = (ns ++ [n], 0) := by
  have hdigits : newline ∉ digits n := not_mem_digits (Or.inl (by decide))
  rw [line, List.foldl_append, foldl_readByte_digits hdigits, ← value, value_digits]
  rfl

/-- **The numbers are read back** from their lines. -/
theorem numbers_lines (ns : List ℕ) : numbers (ns.flatMap line) = ns := by
  have hall : ∀ done : List ℕ,
      (ns.flatMap line).foldl readByte (done, 0) = (done ++ ns, 0) := by
    induction ns with
    | nil =>
        intro done
        rw [List.append_nil]
        rfl
    | cons n ns ih =>
        intro done
        rw [List.flatMap_cons, List.foldl_append, foldl_readByte_line, ih, List.append_assoc]
        rfl
  rw [numbers, hall]
  rfl

end AudioProc.Decimal
