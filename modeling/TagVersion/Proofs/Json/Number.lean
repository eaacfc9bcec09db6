import Mathlib.Algebra.Field.Rat
import Mathlib.Algebra.GroupWithZero.Basic
import Mathlib.Data.List.TakeDrop
import Mathlib.Data.List.TakeWhile
import Mathlib.Tactic.Lemma
import TagVersion.Proofs.Text.Decimal

/-!
Numbers of JSON: digits without a zero in front, perhaps with a minus sign before them and with a
fraction and an exponent behind them. What follows a number starts with a character that no number
is written with.
-/

namespace TagVersion.Json

/-- The characters that numbers are written with. -/
def isNumeral (c : Char) : Bool := c.isDigit || ['-', '+', '.', 'e', 'E'].contains c

/-- The digits in front, of which there is at least one. -/
def digits? (cs : List Char) : Option (List Char × List Char) :=
  match cs.span Char.isDigit with
  | ([], _) => none
  | read => some read

/-- The digits of the whole part, and what follows them. -/
def whole? : List Char → Option (List Char × List Char)
  | '0' :: cs => some (['0'], cs)
  | cs => digits? cs

/-- The digits of the fraction, if there is one, and what follows them. -/
def fraction? : List Char → Option (List Char × List Char)
  | '.' :: cs => digits? cs
  | cs => some ([], cs)

/-- The number that digits up to the end write. -/
def power? (cs : List Char) : Option Int :=
  match digits? cs with
  | some (digits, []) => some (Decimal.value digits)
  | _ => none

/-- The exponent, which reaches to the end; it is zero if there is none. -/
def exponent? : List Char → Option Int
  | [] => some 0
  | c :: cs =>
    if c = 'e' ∨ c = 'E' then
      match cs with
      | '-' :: cs => (power? cs).map (- ·)
      | '+' :: cs => power? cs
      | cs => power? cs
    else none

/-- The value of a number without a sign. -/
def size? (cs : List Char) : Option ℚ := do
  let (whole, rest) ← whole? cs
  let (fraction, rest) ← fraction? rest
  let exponent ← exponent? rest
  return Decimal.value (whole ++ fraction) * 10 ^ (exponent - fraction.length)

/-- The value of a number, if the text is one. -/
def number? : List Char → Option ℚ
  | '-' :: cs => (size? cs).map (- ·)
  | cs => size? cs

/-- Whether only characters of numbers stand before what is left. -/
def Leaves (cs left : List Char) : Prop :=
  ∃ used, cs = used ++ left ∧ used.all isNumeral = true

variable {cs left rest digits : List Char} {c : Char}

lemma Leaves.refl (cs : List Char) : Leaves cs cs := ⟨[], rfl, rfl⟩

lemma Leaves.cons (hc : isNumeral c = true) (h : Leaves cs left) : Leaves (c :: cs) left := by
  obtain ⟨used, rfl, hused⟩ := h
  exact ⟨c :: used, rfl, by rw [List.all_cons, hc, hused, Bool.true_and]⟩

lemma Leaves.trans (h : Leaves cs left) (h' : Leaves left rest) : Leaves cs rest := by
  obtain ⟨used, rfl, hused⟩ := h
  obtain ⟨used', rfl, hused'⟩ := h'
  refine ⟨used ++ used', (List.append_assoc ..).symm, ?_⟩
  rw [List.all_append, hused, hused', Bool.true_and]

lemma digits?_eq_some_iff : digits? cs = some (digits, left) ↔
    digits ≠ [] ∧ cs.takeWhile Char.isDigit = digits ∧ cs.dropWhile Char.isDigit = left := by
  unfold digits?
  rw [List.span_eq_takeWhile_dropWhile]
  cases htake : cs.takeWhile Char.isDigit with
  | nil => simp +contextual [eq_comm]
  | cons c rest =>
    simp only [Option.some.injEq, Prod.mk.injEq]
    grind

lemma leaves_digits? (h : digits? cs = some (digits, left)) : Leaves cs left := by
  obtain ⟨-, htake, rfl⟩ := digits?_eq_some_iff.mp h
  refine ⟨cs.takeWhile Char.isDigit, List.takeWhile_append_dropWhile.symm, ?_⟩
  rw [List.all_eq_true]
  intro c hc
  rw [isNumeral, List.mem_takeWhile_imp hc, Bool.true_or]

lemma leaves_whole? (h : whole? cs = some (digits, left)) : Leaves cs left := by
  unfold whole? at h
  split at h
  · cases h
    exact (Leaves.refl _).cons (by decide)
  · exact leaves_digits? h

lemma leaves_fraction? (h : fraction? cs = some (digits, left)) : Leaves cs left := by
  unfold fraction? at h
  split at h
  · exact (leaves_digits? h).cons (by decide)
  · cases h
    exact Leaves.refl _

lemma leaves_power? {n : Int} (h : power? cs = some n) : Leaves cs [] := by
  unfold power? at h
  split at h
  · next hread => exact leaves_digits? hread
  · cases h

lemma leaves_exponent? {n : Int} (h : exponent? cs = some n) : Leaves cs [] := by
  unfold exponent? at h
  split at h
  · exact Leaves.refl []
  · next c cs =>
    split at h
    · next hc =>
      refine Leaves.cons (by rcases hc with rfl | rfl <;> decide) ?_
      split at h
      · obtain ⟨m, hm, -⟩ := Option.map_eq_some_iff.mp h
        exact (leaves_power? hm).cons (by decide)
      · exact (leaves_power? h).cons (by decide)
      · exact leaves_power? h
    · cases h

lemma leaves_size? {q : ℚ} (h : size? cs = some q) : Leaves cs [] := by
  obtain ⟨⟨whole, rest⟩, hwhole, h⟩ := Option.bind_eq_some_iff.mp h
  obtain ⟨⟨fraction, rest'⟩, hfraction, h⟩ := Option.bind_eq_some_iff.mp h
  obtain ⟨exponent, hexponent, -⟩ := Option.bind_eq_some_iff.mp h
  exact ((leaves_whole? hwhole).trans (leaves_fraction? hfraction)).trans
    (leaves_exponent? hexponent)

lemma all_isNumeral {q : ℚ} (h : number? cs = some q) : cs.all isNumeral = true := by
  have hleaves : Leaves cs [] := by
    unfold number? at h
    split at h
    · obtain ⟨size, hsize, -⟩ := Option.map_eq_some_iff.mp h
      exact (leaves_size? hsize).cons (by decide)
    · exact leaves_size? h
  obtain ⟨used, rfl, hused⟩ := hleaves
  rwa [List.append_nil]

/-- A natural number is printed as a number. -/
lemma number?_toString (n : Nat) : number? (toString n).toList = some (n : ℚ) := by
  have hdigits : ∀ c ∈ Nat.toDigits 10 n, c.isDigit = true :=
    fun c => Nat.isDigit_of_mem_toDigits (by decide) (by decide)
  have hvalue : Decimal.value (Nat.toDigits 10 n) = n := by
    rw [Decimal.value_eq, Nat.ofDigitChars_ten_toDigits]
  have hne : Nat.toDigits 10 n ≠ [] := Nat.toDigits_ne_nil
  have hread : digits? (Nat.toDigits 10 n) = some (Nat.toDigits 10 n, []) :=
    digits?_eq_some_iff.mpr
      ⟨hne, List.takeWhile_eq_self_iff.mpr hdigits, List.dropWhile_eq_nil_iff.mpr hdigits⟩
  have hwhole : whole? (Nat.toDigits 10 n) = some (Nat.toDigits 10 n, []) := by
    rcases Nat.eq_zero_or_pos n with rfl | hpos
    · rfl
    · have hzero := Decimal.head?_toDigits hpos
      unfold whole?
      split
      · next heq => simp [heq] at hzero
      · exact hread
  have hsize : size? (Nat.toDigits 10 n) = some (n : ℚ) := by
    simp [size?, hwhole, fraction?, exponent?, hvalue]
  rw [Nat.toString_eq_ofList_toDigits, String.toList_ofList]
  unfold number?
  split
  · next heq =>
    have hminus : '-'.isDigit = true := hdigits '-' (by simp [heq])
    cases hminus
  · exact hsize

example : number? ['-', '1', '.', '5', '0', 'e', '+', '1'] = some (-15) := by decide +kernel

example : number? ['0', '1'] = none := by rfl

end TagVersion.Json
