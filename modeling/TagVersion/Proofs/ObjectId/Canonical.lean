import TagVersion.ObjectId.Json
import TagVersion.Proofs.Json.Grammar
import TagVersion.Proofs.ObjectId
import TagVersion.Proofs.Outcome
import TagVersion.Text.Bytes

/-!
Object ids are canonical. Which texts are read as ids, and which of them as one id, is told by their
characters; an id is read back from its own text and from its JSON, and its digits are bytes.
-/

namespace TagVersion.ObjectId

open Case (SameLetter SameLetters)

variable {id : ObjectId} {s t : String} {c : Char}

/-! ### Lower case -/

lemma isDigit_iff : Hex.isDigit c = true ↔
    ((48 ≤ c.toNat ∧ c.toNat ≤ 57) ∨ (97 ≤ c.toNat ∧ c.toNat ≤ 102)) ∨
      (65 ≤ c.toNat ∧ c.toNat ≤ 70) := by
  simp [Hex.isDigit, Char.isDigit, Char.le_def, UInt32.le_iff_toNat_le]

lemma isLowerDigit_toLower (c : Char) : isLowerDigit c.toLower = Hex.isDigit c := by
  rw [Bool.eq_iff_iff, isLowerDigit_iff, isDigit_iff, Case.toNat_toLower]
  split <;> omega

lemma toList_lower (s : String) : (lower s).toList = s.toList.map Char.toLower :=
  String.toList_ofList

lemma lower_eq_iff : lower s = lower t ↔ SameLetters s t := by
  rw [← String.toList_inj, toList_lower, toList_lower, Case.map_toLower_eq_iff]

lemma all_isLowerDigit_lower : (lower s).toList.all isLowerDigit = true ↔
    ∀ c ∈ s.toList, Hex.isDigit c = true := by
  rw [toList_lower, List.all_map, List.all_eq_true]
  simp only [Function.comp_apply, isLowerDigit_toLower]

lemma utf8ByteSize_lower (s : String) : (lower s).utf8ByteSize = s.utf8ByteSize := by
  rw [lower, Case.utf8ByteSize_map_toLower, String.ofList_toList]

lemma utf8ByteSize_of_hex (h : ∀ c ∈ s.toList, Hex.isDigit c = true) :
    s.utf8ByteSize = s.length := by
  have hsize := utf8ByteSize_of_all (all_isLowerDigit_lower.mpr h)
  rw [String.ofList_toList, utf8ByteSize_lower] at hsize
  rw [hsize, toList_lower, List.length_map, String.length_toList]

/-! ### Reading a text -/

lemma exists_ofText_iff : (∃ id, ofText s = .ok id) ↔
    (s.length = 40 ∨ s.length = 64) ∧ ∀ c ∈ s.toList, Hex.isDigit c = true := by
  have hkept : (∃ id, ofText s = .ok id) ↔ IsCanonical (lower s) := by
    constructor
    · rintro ⟨id, h⟩
      rw [← ofText_eq_ok_iff.mp h]
      exact id.canonical
    · exact fun h => ⟨⟨lower s, h⟩, ofText_eq_ok_iff.mpr rfl⟩
  rw [hkept, IsCanonical, all_isLowerDigit_lower, utf8ByteSize_lower]
  exact and_congr_left fun hdigits => by rw [utf8ByteSize_of_hex hdigits]

lemma ofText_eq_length_iff {n : Nat} : ofText s = .error (.length n) ↔
    n = s.utf8ByteSize ∧ ¬ (s.utf8ByteSize = 40 ∨ s.utf8ByteSize = 64) := by
  unfold ofText
  simp only [utf8ByteSize_lower]
  split
  · next hsize => split <;> simp [hsize]
  · next hsize => rw [Except.error.injEq, Malformed.length.injEq, and_iff_left hsize, eq_comm]

lemma ofText_eq_digits_iff : ofText s = .error .digits ↔
    (s.utf8ByteSize = 40 ∨ s.utf8ByteSize = 64) ∧ ∃ c ∈ s.toList, Hex.isDigit c = false := by
  have hdigits : (∃ c ∈ s.toList, Hex.isDigit c = false) ↔
      ¬ (lower s).toList.all isLowerDigit = true := by
    rw [all_isLowerDigit_lower]
    simp
  rw [hdigits]
  unfold ofText
  simp only [utf8ByteSize_lower]
  split
  · next hsize => split <;> simp_all
  · next hsize => simp [hsize]

/-- What is read tells a text up to the case of its letters. -/
lemma eq_iff_of_ofText {a b : ObjectId} (ha : ofText s = .ok a) (hb : ofText t = .ok b) :
    a = b ↔ SameLetters s t := by
  rw [← lower_eq_iff, ← ofText_eq_ok_iff.mp ha, ← ofText_eq_ok_iff.mp hb]
  constructor
  · exact congrArg text
  · intro htext
    obtain ⟨text, canonical⟩ := a
    obtain ⟨text', canonical'⟩ := b
    cases htext
    rfl

/-! ### Reading JSON -/

lemma ofJson?_eq_some_iff {document : String} : ofJson? document = some id ↔
    ∃ text, Json.IsDocument document (.string text) ∧ ofText text = .ok id := by
  unfold ofJson?
  simp only [Option.bind_eq_bind, Option.bind_eq_some_iff, Outcome.toOption_eq_some_iff,
    Json.string?_eq_some_iff_isDocument]

/-! ### The first digits -/

lemma text_eq_short_append (id : ObjectId) (len : Nat) :
    ∃ rest, id.text = id.short len ++ rest := by
  refine ⟨String.ofList (id.text.toList.drop len), ?_⟩
  rw [short, ← String.ofList_append, List.take_append_drop, String.ofList_toList]

/-- Every digit is one byte, so as many bytes as digits are taken. -/
lemma utf8ByteSize_short (id : ObjectId) (len : Nat) :
    (id.short len).utf8ByteSize = min len id.text.utf8ByteSize := by
  have hall := id.canonical.2
  have hshort : (id.text.toList.take len).all isLowerDigit = true :=
    List.all_eq_true.mpr fun c hc => List.all_eq_true.mp hall c (List.mem_of_mem_take hc)
  have hsize := utf8ByteSize_of_all hall
  rw [String.ofList_toList] at hsize
  rw [short, utf8ByteSize_of_all hshort, List.length_take, hsize]

lemma isValid_short (id : ObjectId) (len : Nat) :
    String.Pos.Raw.IsValid id.text ⟨min len id.text.utf8ByteSize⟩ := by
  obtain ⟨rest, hrest⟩ := id.text_eq_short_append len
  refine String.Pos.Raw.isValid_iff_exists_append.mpr ⟨id.short len, rest, hrest, ?_⟩
  rw [← utf8ByteSize_short]
  rfl

lemma ofText_short (id : ObjectId) (len : Nat) :
    Bytes.ofText (id.short len) = (Bytes.ofText id.text).take len := by
  obtain ⟨rest, hrest⟩ := id.text_eq_short_append len
  have hbytes : Bytes.ofText id.text = Bytes.ofText (id.short len) ++ Bytes.ofText rest := by
    simp [hrest, Bytes.ofText]
  have hlength : ∀ text, (Bytes.ofText text).length = text.utf8ByteSize := fun text => rfl
  have hsize := id.utf8ByteSize_short len
  calc
    Bytes.ofText (id.short len)
      = (Bytes.ofText id.text).take (Bytes.ofText (id.short len)).length := by
        rw [hbytes, List.take_left]
    _ = (Bytes.ofText id.text).take (min len (Bytes.ofText id.text).length) := by
        rw [hlength, hlength, hsize]
    _ = (Bytes.ofText id.text).take len := List.take_eq_take_min.symm

lemma isPrefix_short (id : ObjectId) {m n : Nat} (h : m ≤ n) :
    (id.short m).toList <+: (id.short n).toList := by
  rw [toList_short, toList_short]
  exact List.take_prefix_take_left h

/-- **Ids are canonical.** A text is read as an id just if it has forty or sixty-four hexadecimal
digits, and its length in bytes is judged before its characters. Texts of one id differ in the case
of letters only; an id is read back from its text and from its JSON, and the JSON of an id is any
literal of a text that is read as it. Its first digits are its first bytes. -/
theorem ofText_canonical (s t : String) (id : ObjectId) :
    ((∃ id, ofText s = .ok id) ↔
      (s.length = 40 ∨ s.length = 64) ∧ ∀ c ∈ s.toList, Hex.isDigit c = true) ∧
    (∀ n, ofText s = .error (.length n) ↔
      n = s.utf8ByteSize ∧ ¬ (s.utf8ByteSize = 40 ∨ s.utf8ByteSize = 64)) ∧
    (ofText s = .error .digits ↔
      (s.utf8ByteSize = 40 ∨ s.utf8ByteSize = 64) ∧ ∃ c ∈ s.toList, Hex.isDigit c = false) ∧
    (∀ a b, ofText s = .ok a → ofText t = .ok b → (a = b ↔ SameLetters s t)) ∧
    ofText id.text = .ok id ∧
    (∀ before after : String, Json.IsBlank before.toList → Json.IsBlank after.toList →
      ofJson? (before ++ id.json ++ after) = some id) ∧
    (∀ document, ofJson? document = some id ↔
      ∃ text, Json.IsDocument document (.string text) ∧ ofText text = .ok id) ∧
    (∀ m n, m ≤ n → (id.short m).toList <+: (id.short n).toList) ∧
    ∀ m, (id.short m).length = min m id.text.length ∧
      Bytes.ofText (id.short m) = (Bytes.ofText id.text).take m ∧
      String.Pos.Raw.IsValid id.text ⟨min m id.text.utf8ByteSize⟩ := by
  have hjson : ∀ before after : String, Json.IsBlank before.toList → Json.IsBlank after.toList →
      ofJson? (before ++ id.json ++ after) = some id := fun before after hbefore hafter =>
    ofJson?_eq_some_iff.mpr ⟨id.text, Json.isDocument_quoted hbefore hafter id.text, id.ofText_text⟩
  refine ⟨exists_ofText_iff, fun n => ofText_eq_length_iff, ofText_eq_digits_iff,
    fun a b => eq_iff_of_ofText, id.ofText_text, hjson, fun document => ofJson?_eq_some_iff,
    fun m n => id.isPrefix_short, fun m => ⟨?_, id.ofText_short m, id.isValid_short m⟩⟩
  rw [← String.length_toList, toList_short, List.length_take, String.length_toList]

/-- Forty letters, in upper and in lower case. -/
theorem ofText_canonical_respelled :
    let s := String.ofList (List.replicate 40 'A')
    let t := String.ofList (List.replicate 40 'a')
    ∃ id, ofText s = .ok id ∧ ofText t = .ok id ∧ ofJson? (" " ++ id.json ++ "\n") = some id ∧
      (id.short 7).toList <+: (id.short 10).toList := by
  intro s t
  have hread : ∀ c, Hex.isDigit c = true →
      ∃ id, ofText (String.ofList (List.replicate 40 c)) = .ok id := by
    intro c hc
    refine exists_ofText_iff.mpr ⟨.inl (by simp), fun c' hc' => ?_⟩
    rw [String.toList_ofList] at hc'
    rwa [List.eq_of_mem_replicate hc']
  obtain ⟨a, ha⟩ := hread 'A' (by decide)
  obtain ⟨b, hb⟩ := hread 'a' (by decide)
  obtain ⟨-, -, -, hsame, -, hjson, -, hstart, -⟩ := ofText_canonical s t b
  have hcase : SameLetter 'A' 'a' := .inr (.inl (by decide))
  have hall : ∀ n, List.Forall₂ SameLetter (List.replicate n 'A') (List.replicate n 'a') := by
    intro n
    induction n with
    | zero => exact .nil
    | succ n ih => exact .cons hcase ih
  have hletters : SameLetters s t := by
    rw [SameLetters, String.toList_ofList, String.toList_ofList]
    exact hall 40
  obtain rfl := (hsame a b ha hb).mpr hletters
  exact ⟨a, ha, hb, hjson " " "\n" (by decide) (by decide), hstart 7 10 (by decide)⟩

end TagVersion.ObjectId
