import TagVersion.Text.Hex

/-!
String literals of JSON. A quote, a backslash and the control characters below the space are
escaped; every other character stands for itself.
-/

namespace TagVersion.Json

/-- The short escapes, by the letter after the backslash. -/
def shortEscapes : List (Char × Char) :=
  [('"', '"'), ('\\', '\\'), ('b', '\x08'), ('t', '\t'), ('n', '\n'), ('f', '\x0c'), ('r', '\r')]

def escape (c : Char) : List Char :=
  match shortEscapes.find? (·.2 == c) with
  | some (letter, _) => ['\\', letter]
  | none => if c.toNat < 32 then '\\' :: 'u' :: Hex.numeral 4 c.toNat else [c]

/-- A text between quotes. -/
def quoted (text : String) : String :=
  String.ofList ('"' :: text.toList.flatMap escape ++ ['"'])

/-- The character of a code point, if it is one. -/
def scalar? (n : Nat) : Option Char := if h : n.isValidChar then some (Char.ofNatAux n h) else none

/-- The character that two surrogate halves write together. -/
def paired? (high low : Nat) : Option Char :=
  if 0xDC00 ≤ low ∧ low ≤ 0xDFFF then
    scalar? (0x10000 + (high - 0xD800) * 0x400 + (low - 0xDC00))
  else none

/-- The characters up to the closing quote, and what follows it. Control characters must be
escaped, and halves of a surrogate pair stand together. -/
def unquote : List Char → Option (List Char × List Char)
  | '"' :: rest => some ([], rest)
  | '\\' :: 'u' :: a :: b :: c :: d :: rest => do
    let unit ← Hex.ofDigits? [a, b, c, d]
    if 0xD800 ≤ unit ∧ unit ≤ 0xDBFF then
      match rest with
      | '\\' :: 'u' :: e :: f :: g :: h :: rest =>
        let char ← paired? unit (← Hex.ofDigits? [e, f, g, h])
        let (cs, left) ← unquote rest
        return (char :: cs, left)
      | _ => none
    else
      let char ← scalar? unit
      let (cs, left) ← unquote rest
      return (char :: cs, left)
  | '\\' :: letter :: rest => do
    let char ← if letter = '/' then some '/' else shortEscapes.lookup letter
    let (cs, left) ← unquote rest
    return (char :: cs, left)
  | c :: rest => do
    if c.toNat < 32 then none
    let (cs, left) ← unquote rest
    return (c :: cs, left)
  | [] => none

def isSpace (c : Char) : Bool := c == ' ' || c == '\t' || c == '\n' || c == '\r'

/-- The text of a document that is one string literal, with white space around it. -/
def string? (document : String) : Option String :=
  match document.toList.dropWhile isSpace with
  | '"' :: rest =>
    match unquote rest with
    | some (cs, left) => if left.all isSpace then some (String.ofList cs) else none
    | none => none
  | _ => none

end TagVersion.Json
