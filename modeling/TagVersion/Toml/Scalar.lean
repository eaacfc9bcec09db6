import TagVersion.Text.Decimal
import TagVersion.Text.Hex
import TagVersion.Toml.Value

/-!
Values of TOML that are written without quotes and brackets: booleans, numbers, dates and times.
-/

namespace TagVersion.Toml

namespace Scalar

/-- Digits with single underscores between them, without these. -/
def grouped? (isDigit : Char → Bool) (cs : List Char) : Option (List Char) :=
  let groups := cs.splitOn '_'
  if groups.all fun g => !g.isEmpty && g.all isDigit then some groups.flatten else none

/-- Digits of a decimal number that has no zero in front. -/
def leading? (cs : List Char) : Option (List Char) :=
  match grouped? Char.isDigit cs with
  | some ('0' :: _ :: _) => none
  | digits => digits

/-- The sign in front, if there is one, and the rest. -/
def signed : List Char → Option Char × List Char
  | '+' :: cs => (some '+', cs)
  | '-' :: cs => (some '-', cs)
  | cs => (none, cs)

/-- The number that digits of a base write. -/
def inBase (base : Nat) (digits : List Char) : Nat :=
  digits.foldl (fun n c => n * base + (Hex.value? c).getD 0) 0

def isOctal (c : Char) : Bool := '0' ≤ c && c ≤ '7'

def isBinary (c : Char) : Bool := c == '0' || c == '1'

/-- A whole number, in decimal or after `0x`, `0o` or `0b`. -/
def number? : List Char → Option Int
  | '0' :: 'x' :: cs => (grouped? Hex.isDigit cs).map fun ds => inBase 16 ds
  | '0' :: 'o' :: cs => (grouped? isOctal cs).map fun ds => inBase 8 ds
  | '0' :: 'b' :: cs => (grouped? isBinary cs).map fun ds => inBase 2 ds
  | cs => do
    let (sign, digits) := signed cs
    let n : Int := Decimal.value (← leading? digits)
    return if sign = some '-' then -n else n

/-- A whole number of sixty-four bits. -/
def integer? (cs : List Char) : Option Int :=
  (number? cs).filter fun n => -(Int.pow 2 63) ≤ n && n < Int.pow 2 63

/-- The exponent behind `e`. -/
def isExponent (cs : List Char) : Bool := (grouped? Char.isDigit (signed cs).2).isSome

/-- Whether a word is a number with a fraction, an exponent or both, or no finite number. -/
def isFloat (cs : List Char) : Bool :=
  let body := (signed cs).2
  if body = "inf".toList || body = "nan".toList then true
  else
    let (mantissa, tail) := body.span fun c => c != 'e' && c != 'E'
    let (whole, fraction) := mantissa.span (· != '.')
    (leading? whole).isSome && !(tail.isEmpty && fraction.isEmpty) &&
      (tail.isEmpty || isExponent tail.tail) &&
      (fraction.isEmpty || (grouped? Char.isDigit fraction.tail).isSome)

/-- The number that a fixed count of digits writes, and what follows them. -/
def digits? (count : Nat) (cs : List Char) : Option (Nat × List Char) :=
  let digits := cs.take count
  if digits.length = count && digits.all Char.isDigit then
    some (Decimal.value digits, cs.drop count)
  else none

/-- What follows a character. -/
def after? (c : Char) : List Char → Option (List Char)
  | d :: cs => if c = d then some cs else none
  | [] => none

def isLeap (year : Nat) : Bool := year % 4 == 0 && (year % 100 != 0 || year % 400 == 0)

def daysIn (year month : Nat) : Nat :=
  match month with
  | 2 => if isLeap year then 29 else 28
  | 4 | 6 | 9 | 11 => 30
  | _ => 31

/-- What follows a date. -/
def afterDate? (cs : List Char) : Option (List Char) := do
  let (year, cs) ← digits? 4 cs
  let (month, cs) ← digits? 2 (← after? '-' cs)
  let (day, cs) ← digits? 2 (← after? '-' cs)
  if 1 ≤ month && month ≤ 12 && 1 ≤ day && day ≤ daysIn year month then some cs else none

/-- What follows the time of a day. -/
def afterTime? (cs : List Char) : Option (List Char) := do
  let (hour, cs) ← digits? 2 cs
  let (minute, cs) ← digits? 2 (← after? ':' cs)
  let (second, cs) ← digits? 2 (← after? ':' cs)
  if hour ≤ 23 && minute ≤ 59 && second ≤ 60 then
    match cs with
    | '.' :: c :: rest => if c.isDigit then some (rest.dropWhile Char.isDigit) else none
    | cs => some cs
  else none

/-- Whether a text is the distance of a time zone, or nothing. -/
def isZone : List Char → Bool
  | [] => true
  | [c] => c == 'Z' || c == 'z'
  | sign :: cs =>
    (sign == '+' || sign == '-') &&
      match digits? 2 cs with
      | some (hour, ':' :: cs) =>
        match digits? 2 cs with
        | some (minute, []) => hour ≤ 23 && minute ≤ 59
        | _ => false
      | _ => false

/-- Whether a word is a date, a time of a day, or both with or without a time zone. -/
def isMoment (cs : List Char) : Bool :=
  match afterDate? cs with
  | some [] => true
  | some (c :: rest) => (c == 'T' || c == 't' || c == ' ') && (afterTime? rest).any isZone
  | none => afterTime? cs == some []

/-- What a word may be made of. -/
def isWord (c : Char) : Bool :=
  c.isAlphanum || c == '_' || c == '+' || c == '-' || c == '.' || c == ':'

/-- The word in front. A blank between a date and a digit belongs to the word. -/
def word (cs : List Char) : List Char × List Char :=
  let (first, rest) := cs.span isWord
  match afterDate? first, rest with
  | some [], ' ' :: c :: more =>
    if c.isDigit then
      let (second, rest) := (c :: more).span isWord
      (first ++ ' ' :: second, rest)
    else (first, rest)
  | _, _ => (first, rest)

/-- The value that a word is. -/
def value? (cs : List Char) : Option Value :=
  if cs = "true".toList then some (.boolean true)
  else if cs = "false".toList then some (.boolean false)
  else
    match integer? cs with
    | some n => some (.integer n)
    | none =>
      if isFloat cs then some (.float (String.ofList cs))
      else if isMoment cs then some (.moment (String.ofList cs))
      else none

end Scalar

end TagVersion.Toml
