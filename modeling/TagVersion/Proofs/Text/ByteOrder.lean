import Mathlib.Tactic.ByContra
import Mathlib.Tactic.Lemma
import Mathlib.Tactic.SplitIfs
import TagVersion.Text.Bytes

/-!
The order of texts is the order of their bytes. A text is compared by the numbers of its characters,
and UTF-8 is laid out so that comparing byte by byte comes to the same.
-/

namespace TagVersion.Bytes

lemma ofText_eq (text : String) : ofText text = text.toList.flatMap String.utf8EncodeChar := by
  unfold ofText String.toUTF8
  rw [← String.utf8Encode_toList]
  simp [List.utf8Encode]

/-- Of two characters the one with the smaller number has the smaller bytes, whatever follows. -/
lemma encode_append_lt {c d : Char} (h : c < d) (x y : Bytes) :
    String.utf8EncodeChar c ++ x < String.utf8EncodeChar d ++ y := by
  have hlt : c.val.toNat < d.val.toNat := h
  have hd : d.val.toNat < 0x110000 := by
    have := d.valid
    unfold UInt32.isValidChar Nat.isValidChar at this
    omega
  simp only [String.utf8EncodeChar]
  generalize c.val.toNat = m at *
  generalize d.val.toNat = n at *
  -- one case for each pair of lengths; a longer code begins with a greater byte
  split_ifs
  all_goals
    simp (disch := omega) only [List.cons_append, List.cons_lt_cons_iff, UInt8.lt_iff_toNat_lt,
      ← UInt8.toNat_inj, UInt8.toNat_ofNat', Nat.mod_eq_of_lt]
    omega

lemma append_lt_append_iff (u : Bytes) {x y : Bytes} : u ++ x < u ++ y ↔ x < y := by
  induction u with
  | nil => rfl
  | cons b u ih => simp [ih]

lemma flatMap_encode_lt {cs ds : List Char} (h : cs < ds) :
    cs.flatMap String.utf8EncodeChar < ds.flatMap String.utf8EncodeChar := by
  induction cs generalizing ds with
  | nil =>
    cases ds with
    | nil => exact absurd h (List.lt_irrefl _)
    | cons d ds =>
      rw [List.flatMap_nil, List.flatMap_cons]
      cases hd : String.utf8EncodeChar d with
      | nil => exact absurd hd String.utf8EncodeChar_ne_nil
      | cons b bs => exact List.nil_lt_cons b _
  | cons c cs ih =>
    cases ds with
    | nil => exact absurd h (List.not_lt_nil _)
    | cons d ds =>
      rw [List.flatMap_cons, List.flatMap_cons]
      rcases List.cons_lt_cons_iff.mp h with hcd | ⟨rfl, hrest⟩
      · exact encode_append_lt hcd _ _
      · exact (append_lt_append_iff _).mpr (ih hrest)

/-- **Texts are ordered as their bytes are.** -/
theorem ofText_lt_iff {a b : String} : ofText a < ofText b ↔ a < b := by
  have mono : ∀ {a b : String}, a < b → ofText a < ofText b := by
    intro a b h
    rw [ofText_eq, ofText_eq]
    exact flatMap_encode_lt h
  refine ⟨fun h => ?_, mono⟩
  by_contra hab
  -- then `b` is no greater, and so are its bytes
  by_cases heq : a = b
  · exact List.lt_irrefl _ (heq ▸ h)
  · have hba : b < a := by
      by_contra hba
      exact heq (String.le_antisymm hba hab)
    exact List.lt_asymm h (mono hba)

end TagVersion.Bytes
