import TagVersion.ObjectId
import TagVersion.Proofs.Text.Case

/-!
The digits of object ids: there are forty or sixty-four of them, and all are hexadecimal. Reading a
text keeps it in lower case, so an id reads as itself.
-/

namespace TagVersion.ObjectId

variable {id : ObjectId} {text : String}

lemma isLowerDigit_iff {c : Char} : isLowerDigit c = true ↔
    (48 ≤ c.toNat ∧ c.toNat ≤ 57) ∨ (97 ≤ c.toNat ∧ c.toNat ≤ 102) := by
  simp [isLowerDigit, Char.isDigit, Char.le_def, UInt32.le_iff_toNat_le]

lemma isDigit_of_isLowerDigit {c : Char} (h : isLowerDigit c = true) : Hex.isDigit c = true := by
  unfold Hex.isDigit
  rw [isLowerDigit] at h
  rw [h, Bool.true_or]

lemma length_text (id : ObjectId) : id.text.toList.length = 40 ∨ id.text.toList.length = 64 := by
  obtain ⟨text, hsize, hdigits⟩ := id
  have hlen := utf8ByteSize_of_all hdigits
  rw [String.ofList_toList] at hlen
  rwa [hlen] at hsize

lemma toList_short (id : ObjectId) (len : Nat) :
    (id.short len).toList = id.text.toList.take len := String.toList_ofList

lemma length_short (id : ObjectId) {len : Nat} (h : len ≤ 40) :
    (id.short len).toList.length = len := by
  have htext := id.length_text
  rw [toList_short, List.length_take]
  omega

lemma isDigit_of_mem_short {id : ObjectId} {len : Nat} {c : Char}
    (h : c ∈ (id.short len).toList) : Hex.isDigit c = true := by
  rw [toList_short] at h
  exact isDigit_of_isLowerDigit (List.all_eq_true.mp id.canonical.2 c (List.mem_of_mem_take h))

/-! ### Reading -/

lemma ofText_eq_ok_iff : ofText text = .ok id ↔ id.text = lower text := by
  obtain ⟨own, hsize, hdigits⟩ := id
  unfold ofText
  dsimp only
  constructor
  · intro h
    split at h
    · split at h
      · exact (congrArg ObjectId.text (Except.ok.inj h)).symm
      · simp at h
    · simp at h
  · rintro rfl
    rw [dif_pos hsize, dif_pos hdigits]

lemma toLower_of_isLowerDigit {c : Char} (h : isLowerDigit c = true) : c.toLower = c := by
  have hdigit := isLowerDigit_iff.mp h
  exact Case.toLower_eq_self (by omega)

/-- An id is read back from its own text. -/
lemma ofText_text (id : ObjectId) : ofText id.text = .ok id := by
  have hsame : ∀ c ∈ id.text.toList, c.toLower = c := fun c hc =>
    toLower_of_isLowerDigit (List.all_eq_true.mp id.canonical.2 c hc)
  rw [ofText_eq_ok_iff, lower, (List.map_congr_left hsame).trans (List.map_id' _),
    String.ofList_toList]

end TagVersion.ObjectId
