import Mathlib.Algebra.Group.Nat.Defs
import Mathlib.Tactic.Lemma
import TagVersion.Text.Hex

/-!
Hexadecimal numerals are read back, so different numbers are written differently.
-/

namespace TagVersion.Hex

lemma value?_digit {n : Nat} (h : n < 16) : value? (digit n) = some n := by
  have hall : ∀ i : Fin 16, value? (digit i) = some i.val := by decide
  exact hall ⟨n, h⟩

lemma ofDigits?_append_singleton (cs : List Char) (c : Char) : ofDigits? (cs ++ [c]) =
    (ofDigits? cs).bind fun n => (value? c).map (n * 16 + ·) := by
  unfold ofDigits?
  rw [List.foldlM_append]
  simp only [List.foldlM_cons, List.foldlM_nil, bind_pure]
  rfl

lemma ofDigits?_numeral {width n : Nat} (h : n < 16 ^ width) :
    ofDigits? (numeral width n) = some n := by
  induction width generalizing n with
  | zero =>
    obtain rfl : n = 0 := by simpa using h
    rfl
  | succ width ih =>
    rw [Nat.pow_succ] at h
    rw [numeral, ofDigits?_append_singleton, ih (by omega), Option.bind_some,
      value?_digit (Nat.mod_lt _ (by decide)), Option.map_some, Nat.div_add_mod']

lemma numeral_injective {width m n : Nat} (hm : m < 16 ^ width) (hn : n < 16 ^ width)
    (h : numeral width m = numeral width n) : m = n := by
  rw [← Option.some_inj, ← ofDigits?_numeral hm, h, ofDigits?_numeral hn]

end TagVersion.Hex
