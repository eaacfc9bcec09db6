import Mathlib.Data.List.Basic
import Mathlib.Tactic.ByContra
import Mathlib.Tactic.IntervalCases
import Mathlib.Tactic.Lemma
import TagVersion.Text.Decimal

/-!
Decimal numerals and the numbers that they write. A number is printed without a leading zero, and
every numeral without one is the printed form of its number.
-/

namespace TagVersion.Decimal

variable {digits : List Char}

lemma value_eq (digits : List Char) : value digits = Nat.ofDigitChars 10 digits 0 := by
  rw [Nat.ofDigitChars_eq_foldl, value]
  simp only [Nat.mul_comm]
  rfl

lemma toNat_of_isDigit {c : Char} (h : c.isDigit = true) : 48 ≤ c.toNat ∧ c.toNat ≤ 57 := by
  simpa [Char.isDigit, Char.le_def, UInt32.le_iff_toNat_le] using h

/-- A digit is the printed form of its value. -/
lemma toDigits_digit {c : Char} (h : c.isDigit = true) : Nat.toDigits 10 (c.toNat - 48) = [c] := by
  obtain ⟨hlow, hhigh⟩ := toNat_of_isDigit h
  rw [← Char.ofNat_toNat c]
  generalize c.toNat = n at *
  interval_cases n <;> rfl

/-- A positive number is printed without a leading zero. -/
lemma head?_toDigits {n : Nat} (h : 0 < n) : (Nat.toDigits 10 n).head? ≠ some '0' := by
  induction n using Nat.strongRecOn with
  | ind n ih =>
    rcases Nat.lt_or_ge n 10 with hlt | hge
    · rw [Nat.toDigits_of_lt_base hlt]
      interval_cases n <;> decide
    · rw [Nat.toDigits_of_base_le (by decide) hge,
        List.head?_append_of_ne_nil _ Nat.toDigits_ne_nil]
      exact ih (n / 10) (by omega) (by omega)

/-- Digits behind the printed form of a positive number are printed as they stand. -/
lemma toDigits_ofDigitChars {n : Nat} (h : 0 < n) (hdigits : ∀ c ∈ digits, c.isDigit = true) :
    Nat.toDigits 10 (Nat.ofDigitChars 10 digits n) = Nat.toDigits 10 n ++ digits := by
  induction digits generalizing n with
  | nil => simp
  | cons c digits ih =>
    obtain ⟨hc, hrest⟩ := List.forall_mem_cons.mp hdigits
    have hlt : c.toNat - 48 < 10 := by
      have := toNat_of_isDigit hc
      omega
    have hnext : Nat.toDigits 10 (10 * n + (c.toNat - 48)) = Nat.toDigits 10 n ++ [c] := by
      rw [← Nat.toDigits_append_toDigits (by decide) h hlt, toDigits_digit hc]
    rw [Nat.ofDigitChars_cons]
    show Nat.toDigits 10 (Nat.ofDigitChars 10 digits (10 * n + (c.toNat - 48))) = _
    rw [ih (by omega) hrest, hnext, List.append_assoc, List.singleton_append]

/-- A numeral without a leading zero is the printed form of its number, which is positive. -/
lemma toDigits_value (hne : digits ≠ []) (hdigits : ∀ c ∈ digits, c.isDigit = true)
    (hzero : digits.head? ≠ some '0') :
    0 < value digits ∧ Nat.toDigits 10 (value digits) = digits := by
  obtain ⟨c, digits, rfl⟩ := List.exists_cons_of_ne_nil hne
  obtain ⟨hc, hrest⟩ := List.forall_mem_cons.mp hdigits
  have hfirst : 0 < c.toNat - 48 := by
    by_contra hle
    have hc' := toDigits_digit hc
    rw [Nat.eq_zero_of_not_pos hle, Nat.toDigits_zero] at hc'
    exact hzero (congrArg List.head? hc'.symm)
  have hprint : Nat.toDigits 10 (value (c :: digits)) = c :: digits := by
    rw [value_eq, Nat.ofDigitChars_cons, Nat.mul_zero, Nat.zero_add]
    show Nat.toDigits 10 (Nat.ofDigitChars 10 digits (c.toNat - 48)) = _
    rw [toDigits_ofDigitChars hfirst hrest, toDigits_digit hc, List.singleton_append]
  refine ⟨Nat.pos_of_ne_zero fun hval => ?_, hprint⟩
  rw [hval, Nat.toDigits_zero] at hprint
  exact hzero (congrArg List.head? hprint.symm)

end TagVersion.Decimal
