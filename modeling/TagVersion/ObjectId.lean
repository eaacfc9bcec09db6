import TagVersion.Text.Hex

/-!
Object ids: forty or sixty-four hexadecimal digits, kept in lower case. An id is read from a text
in either case, and its length is checked, in bytes, before its digits.
-/

namespace TagVersion

namespace ObjectId

def isLowerDigit (c : Char) : Bool := c.isDigit || ('a' ≤ c && c ≤ 'f')

/-- The texts that ids are kept as. -/
def IsCanonical (text : String) : Prop :=
  (text.utf8ByteSize = 40 ∨ text.utf8ByteSize = 64) ∧ text.toList.all isLowerDigit = true

instance (text : String) : Decidable (IsCanonical text) :=
  inferInstanceAs (Decidable (_ ∧ _))

/-- Why a text is no object id. -/
inductive Malformed where
  | length (bytes : Nat)
  | digits
deriving DecidableEq, Repr

def Malformed.message : Malformed → String
  | .length bytes => s!"invalid object id: expected 40 or 64 hex characters, got {bytes}"
  | .digits => "invalid object id: object id must be hexadecimal"

end ObjectId

structure ObjectId where
  text : String
  canonical : ObjectId.IsCanonical text
deriving DecidableEq

namespace ObjectId

instance : Ord ObjectId := ⟨fun a b => compare a.text b.text⟩

/-- A text with the letters of ASCII in lower case. -/
def lower (text : String) : String := String.ofList (text.toList.map Char.toLower)

/-- Reads an id. -/
def ofText (text : String) : Except Malformed ObjectId :=
  let kept := lower text
  if size : kept.utf8ByteSize = 40 ∨ kept.utf8ByteSize = 64 then
    if digits : kept.toList.all isLowerDigit = true then .ok ⟨kept, size, digits⟩
    else .error .digits
  else .error (.length kept.utf8ByteSize)

/-- Some ids in increasing order, each once. -/
def sorted (ids : List ObjectId) : List ObjectId :=
  (ids.mergeSort fun a b => compare a b != .gt).eraseReps

/-- The first `len` digits, or all of them if there are fewer. -/
def short (id : ObjectId) (len : Nat) : String := String.ofList (id.text.toList.take len)

theorem isLowerDigit_digit {n : Nat} (h : n < 16) : isLowerDigit (Hex.digit n) = true := by
  have : ∀ m : Fin 16, isLowerDigit (Hex.digit m) = true := by decide
  exact this ⟨n, h⟩

theorem all_isLowerDigit_numeral (width n : Nat) :
    (Hex.numeral width n).all isLowerDigit = true := by
  induction width generalizing n with
  | zero => rfl
  | succ w ih =>
    simp [Hex.numeral, ih, isLowerDigit_digit (Nat.mod_lt n (by decide : 0 < 16))]

/-- Every lower-case digit is one byte long. -/
theorem utf8Size_of_isLowerDigit {c : Char} (h : isLowerDigit c = true) : c.utf8Size = 1 := by
  simp only [isLowerDigit, Char.isDigit, Bool.or_eq_true, Bool.and_eq_true, decide_eq_true_eq,
    Char.le_def, UInt32.le_iff_toNat_le] at h
  have ascii : c.toNat ≤ 127 := by
    rcases h with ⟨-, h⟩ | ⟨-, h⟩
    · exact Nat.le_trans h (by decide)
    · exact Nat.le_trans h (by decide)
  have : ¬ 127 < c.toNat := Nat.not_lt.2 ascii
  simp [Char.utf8Size, UInt32.le_iff_toNat_le, this]

theorem utf8ByteSize_of_all {cs : List Char} (h : cs.all isLowerDigit = true) :
    (String.ofList cs).utf8ByteSize = cs.length := by
  induction cs with
  | nil => rfl
  | cons c cs ih =>
    simp only [List.all_cons, Bool.and_eq_true] at h
    rw [String.ofList_cons, String.utf8ByteSize_append, String.utf8ByteSize_singleton,
      utf8Size_of_isLowerDigit h.1, ih h.2, List.length_cons, Nat.add_comm]

/-- An id made of lower-case digits that are known to be forty. -/
def ofDigits (cs : List Char) (size : cs.length = 40) (digits : cs.all isLowerDigit = true) :
    ObjectId :=
  ⟨String.ofList cs, by
    refine ⟨.inl ?_, ?_⟩
    · rw [utf8ByteSize_of_all digits, size]
    · rwa [String.toList_ofList]⟩

end ObjectId

end TagVersion
