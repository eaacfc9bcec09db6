import TagVersion.Toml.Scalar
import TagVersion.Toml.Text

/-!
Documents of TOML. A document is read as statements, one a line, and the statements in order make
up one table. Readers take the characters that are left and answer those that they leave.
-/

namespace TagVersion.Toml

/-- A line that says something. -/
inductive Statement where
  | assign (keys : List String) (value : Value)
  | header (path : List String)
  | nextHeader (path : List String)

namespace Document

def skipSpaces (cs : List Char) : List Char := cs.dropWhile Text.isSpace

/-- What follows a comment, if one stands here. A comment holds what a string may hold as it is. -/
def skipComment : List Char → List Char
  | '#' :: rest => rest.dropWhile Text.isPlain
  | rest => rest

/-- What follows the blanks, the ends of lines and the comments that stand between the items of an
array; `remark` says that a comment is open. -/
def skipGaps (remark : Bool) : List Char → List Char
  | '\r' :: '\n' :: rest => skipGaps false rest
  | '\n' :: rest => skipGaps false rest
  | '#' :: rest => skipGaps true rest
  | c :: rest =>
    if Text.isSpace c || (remark && Text.isPlain c) then skipGaps remark rest else c :: rest
  | [] => []

/-- What a key without quotes is made of. -/
def isBare (c : Char) : Bool := c.isAlphanum || c == '-' || c == '_'

/-- Reads a part of a key. -/
def part? (cs : List Char) : Option (String × List Char) :=
  match Text.line? cs with
  | some (text, rest) => some (String.ofList text, rest)
  | none =>
    let (bare, rest) := cs.span isBare
    if bare.isEmpty then none else some (String.ofList bare, rest)

/-- Reads a key of one part or more, with dots between them. -/
def keys? : Nat → List Char → Option (List String × List Char)
  | 0, _ => none
  | fuel + 1, cs => do
    let (first, rest) ← part? cs
    match skipSpaces rest with
    | '.' :: rest =>
      let (others, rest) ← keys? fuel (skipSpaces rest)
      return (first :: others, rest)
    | rest => return ([first], rest)

/-- Reads a key and the `=` behind it. -/
def target? (fuel : Nat) (cs : List Char) : Option (List String × List Char) := do
  let (keys, rest) ← keys? fuel cs
  match rest with
  | '=' :: rest => return (keys, skipSpaces rest)
  | _ => none

mutual

/-- Reads a value. -/
def value? : Nat → List Char → Option (Value × List Char)
  | 0, _ => none
  | fuel + 1, cs =>
    match cs with
    | '[' :: rest => do
      let (items, rest) ← items? fuel (skipGaps false rest)
      return (.array items, rest)
    | '{' :: rest => do
      let (members, rest) ← members? fuel [] (skipSpaces rest)
      return (.table .inline members, rest)
    | '"' :: _ | '\'' :: _ => do
      let (text, rest) ← Text.string? cs
      return (.string (String.ofList text), rest)
    | _ =>
      let (word, rest) := Scalar.word cs
      (Scalar.value? word).map (·, rest)

/-- Reads the items of an array up to its end. A comma may stand behind the last one. -/
def items? : Nat → List Char → Option (List Value × List Char)
  | 0, _ => none
  | _, ']' :: rest => some ([], rest)
  | fuel + 1, cs => do
    let (item, rest) ← value? fuel cs
    match skipGaps false rest with
    | ',' :: rest =>
      let (items, rest) ← items? fuel (skipGaps false rest)
      return (item :: items, rest)
    | ']' :: rest => return ([item], rest)
    | _ => none

/-- Reads the members of a table in braces up to its end, all on one line. -/
def members? : Nat → Members → List Char → Option (Members × List Char)
  | 0, _, _ => none
  | fuel + 1, members, cs =>
    match members, cs with
    | [], '}' :: rest => some ([], rest)
    | members, cs => do
      let (keys, rest) ← target? fuel cs
      let (value, rest) ← value? fuel rest
      let members ← members.assign value keys
      match skipSpaces rest with
      | ',' :: rest => members? fuel members (skipSpaces rest)
      | '}' :: rest => return (members, rest)
      | _ => none

end

/-- Reads what a line says, if it says something. -/
def statement? (fuel : Nat) (cs : List Char) : Option (Option Statement × List Char) :=
  match skipSpaces cs with
  | '[' :: '[' :: rest => do
    let (path, rest) ← keys? fuel (skipSpaces rest)
    match rest with
    | ']' :: ']' :: rest => return (some (.nextHeader path), rest)
    | _ => none
  | '[' :: rest => do
    let (path, rest) ← keys? fuel (skipSpaces rest)
    match rest with
    | ']' :: rest => return (some (.header path), rest)
    | _ => none
  | rest =>
    match rest with
    | [] | '#' :: _ | '\n' :: _ | '\r' :: _ => some (none, rest)
    | _ => do
      let (keys, rest) ← target? fuel rest
      let (value, rest) ← value? fuel rest
      return (some (.assign keys value), rest)

/-- Reads all lines. -/
def statements? (size : Nat) : Nat → List Char → Option (List Statement)
  | 0, _ => none
  | fuel + 1, cs => do
    let (first, rest) ← statement? size cs
    match skipComment (skipSpaces rest) with
    | [] => return first.toList
    | rest =>
      if Text.atLineEnd rest then
        return first.toList ++ (← statements? size fuel (Text.skipLineEnd rest))
      else none

/-- The table that statements make up: the path of the header that was met last, and the members
so far, changed by one statement. -/
def apply : List String × Members → Statement → Option (List String × Members)
  | (path, members), .assign keys value => return (path, ← members.assignIn path keys value)
  | (_, members), .header path => return (path, ← members.openTable path)
  | (_, members), .nextHeader path => return (path, ← members.openNext path)

/-- The mark of byte order that a text may begin with. -/
def mark : Char := '\ufeff'

/-- Reads a document. Every statement and every nested value takes one character or more, so the
length of the text bounds their number. -/
def read? (text : String) : Option Members := do
  let cs := if text.toList.head? = some mark then text.toList.tail else text.toList
  let fuel := cs.length + 2
  let statements ← statements? fuel fuel cs
  let (_, members) ← statements.foldlM apply ([], [])
  return members

end Document

end TagVersion.Toml
