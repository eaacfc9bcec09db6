/-!
Texts as the bytes that files hold, and back. Bytes that are not well-formed UTF-8 have no text.
-/

namespace TagVersion

/-- The content of a file. -/
abbrev Bytes := List UInt8

namespace Bytes

/-- A text in UTF-8. -/
def ofText (text : String) : Bytes := text.toUTF8.data.toList

/-- The text that bytes write, if they are well-formed UTF-8. -/
def text? (bytes : Bytes) : Option String := String.fromUTF8? ⟨bytes.toArray⟩

/-- A text in bytes is read back. -/
theorem text?_ofText (text : String) : (ofText text).text? = some text := by
  unfold text? ofText String.fromUTF8?
  rw [Array.toArray_toList]
  exact dif_pos text.isValidUTF8

/-- Bytes read as characters of their own number, for formats whose keywords are ASCII. -/
def chars (bytes : Bytes) : List Char := bytes.map fun b => Char.ofNat b.toNat

/-- The blanks of the formats on disk: space, tab, line feed, vertical tab, form feed, return. -/
def isBlank (b : UInt8) : Bool := b == 32 || (9 ≤ b && b ≤ 13)

/-- The bytes without the blanks at their end. -/
def trimEnd (bytes : Bytes) : Bytes := (bytes.reverse.dropWhile isBlank).reverse

/-- The part before the first `sep`, and the part after it. -/
def cut? (sep : UInt8) : Bytes → Option (Bytes × Bytes)
  | [] => none
  | b :: rest =>
    if b = sep then some ([], rest) else (cut? sep rest).map fun (u, v) => (b :: u, v)

end Bytes

end TagVersion
