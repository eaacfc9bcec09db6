import Mathlib.Data.List.Forall2
import Mathlib.Tactic.Lemma

/-!
The case of letters. Only letters of ASCII have one here: lower case keeps every other character,
and every character keeps its size.
-/

namespace TagVersion.Case

/-- Whether two characters are one letter of ASCII in either case, or the same character. -/
def SameLetter (a b : Char) : Prop :=
  a = b ∨ (a.isUpper = true ∧ b.toNat = a.toNat + 32) ∨ (b.isUpper = true ∧ a.toNat = b.toNat + 32)

/-- Whether two texts are equal up to the case of letters of ASCII. -/
def SameLetters (s t : String) : Prop := List.Forall₂ SameLetter s.toList t.toList

variable {a b c : Char}

lemma isUpper_iff : c.isUpper = true ↔ 65 ≤ c.toNat ∧ c.toNat ≤ 90 :=
  decide_eq_true_iff

lemma toLower_eq_self (h : ¬ (65 ≤ c.toNat ∧ c.toNat ≤ 90)) : c.toLower = c := dif_neg h

lemma toNat_toLower (c : Char) :
    c.toLower.toNat = if 65 ≤ c.toNat ∧ c.toNat ≤ 90 then c.toNat + 32 else c.toNat := by
  split
  · next hupper =>
    have hshift : ('a'.val - 'A'.val).toNat = 32 := by decide
    have hval : c.val.toNat ≤ 90 := hupper.2
    have hlower : c.toLower.val = c.val + ('a'.val - 'A'.val) := congrArg Char.val (dif_pos hupper)
    show c.toLower.val.toNat = c.val.toNat + 32
    rw [hlower, UInt32.toNat_add]
    omega
  · next hupper => rw [toLower_eq_self hupper]

lemma utf8Size_toLower (c : Char) : c.toLower.utf8Size = c.utf8Size := by
  have hsmall : ∀ d : Char, d.toNat ≤ 127 → d.utf8Size = 1 := fun d hd =>
    Char.utf8Size_eq_one_iff.mpr (UInt32.le_iff_toNat_le.mpr hd)
  have hlower := toNat_toLower c
  split at hlower
  · rw [hsmall _ (by omega), hsmall _ (by omega)]
  · rw [Char.toNat_inj.mp hlower]

/-- Two characters are one in lower case just if they are one letter, or the same. -/
lemma toLower_eq_iff : a.toLower = b.toLower ↔ SameLetter a b := by
  unfold SameLetter
  rw [← Char.toNat_inj, ← Char.toNat_inj, toNat_toLower, toNat_toLower, isUpper_iff, isUpper_iff]
  split <;> split <;> omega

lemma map_toLower_eq_iff {s t : String} :
    s.toList.map Char.toLower = t.toList.map Char.toLower ↔ SameLetters s t := by
  rw [← List.forall₂_eq_eq_eq, List.forall₂_map_left_iff, List.forall₂_map_right_iff, SameLetters]
  simp only [toLower_eq_iff]

lemma utf8ByteSize_map_toLower (cs : List Char) :
    (String.ofList (cs.map Char.toLower)).utf8ByteSize = (String.ofList cs).utf8ByteSize := by
  induction cs with
  | nil => rfl
  | cons c cs ih =>
    rw [List.map_cons, String.ofList_cons, String.ofList_cons, String.utf8ByteSize_append,
      String.utf8ByteSize_append, String.utf8ByteSize_singleton, String.utf8ByteSize_singleton,
      utf8Size_toLower, ih]

end TagVersion.Case
