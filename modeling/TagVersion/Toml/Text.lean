import TagVersion.Text.Hex

/-!
String literals of TOML, in four forms: between quotes with escapes, between apostrophes as they
are, and each also between three marks over several lines. Each reader takes what follows the
opening marks and answers the characters of the string and what follows the closing marks.
-/

namespace TagVersion.Toml

namespace Text

/-- The escapes by one letter. -/
def escapes : List (Char × Char) :=
  [('b', '\x08'), ('t', '\t'), ('n', '\n'), ('f', '\x0c'), ('r', '\r'), ('"', '"'), ('\\', '\\')]

/-- Whether a character may stand for itself on a line of a string. -/
def isPlain (c : Char) : Bool := c == '\t' || (32 ≤ c.toNat && c.toNat != 127)

def isSpace (c : Char) : Bool := c == ' ' || c == '\t'

/-- The character whose code point is written by hexadecimal digits. -/
def scalar? (digits : List Char) : Option Char := do
  let n ← Hex.ofDigits? digits
  if h : n.isValidChar then some (Char.ofNatAux n h) else none

/-- Puts a character in front of what was read. -/
def push (c : Char) : Option (List Char × List Char) → Option (List Char × List Char) :=
  Option.map fun (cs, rest) => (c :: cs, rest)

/-- Reads on after a quote. -/
def basic : List Char → Option (List Char × List Char)
  | '"' :: rest => some ([], rest)
  | '\\' :: 'u' :: a :: b :: c :: d :: rest => do push (← scalar? [a, b, c, d]) (basic rest)
  | '\\' :: 'U' :: a :: b :: c :: d :: e :: f :: g :: h :: rest => do
    push (← scalar? [a, b, c, d, e, f, g, h]) (basic rest)
  | '\\' :: letter :: rest => do push (← escapes.lookup letter) (basic rest)
  | c :: rest => if isPlain c then push c (basic rest) else none
  | [] => none

/-- Reads on after an apostrophe. -/
def literal : List Char → Option (List Char × List Char)
  | '\'' :: rest => some ([], rest)
  | c :: rest => if isPlain c then push c (literal rest) else none
  | [] => none

/-- Whether a line ends here. -/
def atLineEnd : List Char → Bool
  | '\n' :: _ => true
  | '\r' :: '\n' :: _ => true
  | _ => false

/-- What follows the end of a line, if one stands here. A string over several lines does not begin
with the line's end behind its opening marks. -/
def skipLineEnd : List Char → List Char
  | '\n' :: rest => rest
  | '\r' :: '\n' :: rest => rest
  | rest => rest

/-- Reads on after three quotes. One or two quotes more may stand in front of the closing ones. A
line's end is a line feed, and with a backslash in front it is left out together with all white
space behind it; `skipping` says that such white space is passed. -/
def basicLines (skipping : Bool) : List Char → Option (List Char × List Char)
  | '\r' :: '\n' :: rest =>
    if skipping then basicLines true rest else push '\n' (basicLines false rest)
  | '\n' :: rest => if skipping then basicLines true rest else push '\n' (basicLines false rest)
  | '"' :: '"' :: '"' :: '"' :: '"' :: rest => some (['"', '"'], rest)
  | '"' :: '"' :: '"' :: '"' :: rest => some (['"'], rest)
  | '"' :: '"' :: '"' :: rest => some ([], rest)
  | '\\' :: 'u' :: a :: b :: c :: d :: rest => do
    push (← scalar? [a, b, c, d]) (basicLines false rest)
  | '\\' :: 'U' :: a :: b :: c :: d :: e :: f :: g :: h :: rest => do
    push (← scalar? [a, b, c, d, e, f, g, h]) (basicLines false rest)
  | '\\' :: letter :: rest =>
    match escapes.lookup letter with
    | some c => push c (basicLines false rest)
    | none =>
      if atLineEnd ((letter :: rest).dropWhile isSpace) then basicLines true (letter :: rest)
      else none
  | c :: rest =>
    if skipping && isSpace c then basicLines true rest
    else if isPlain c then push c (basicLines false rest)
    else none
  | [] => none

/-- Reads on after three apostrophes; the same of them holds. -/
def literalLines : List Char → Option (List Char × List Char)
  | '\r' :: '\n' :: rest => push '\n' (literalLines rest)
  | '\'' :: '\'' :: '\'' :: '\'' :: '\'' :: rest => some (['\'', '\''], rest)
  | '\'' :: '\'' :: '\'' :: '\'' :: rest => some (['\''], rest)
  | '\'' :: '\'' :: '\'' :: rest => some ([], rest)
  | c :: rest => if c == '\n' || isPlain c then push c (literalLines rest) else none
  | [] => none

/-- Reads a string on one line, if one stands here. -/
def line? : List Char → Option (List Char × List Char)
  | '"' :: rest => basic rest
  | '\'' :: rest => literal rest
  | _ => none

/-- Reads a string of any form, if one stands here. -/
def string? : List Char → Option (List Char × List Char)
  | '"' :: '"' :: '"' :: rest => basicLines false (skipLineEnd rest)
  | '\'' :: '\'' :: '\'' :: rest => literalLines (skipLineEnd rest)
  | rest => line? rest

end Text

end TagVersion.Toml
