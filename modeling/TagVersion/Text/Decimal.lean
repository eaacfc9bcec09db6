/-!
Decimal numerals.
-/

namespace TagVersion.Decimal

/-- The number that decimal digits write. -/
def value (digits : List Char) : Nat := digits.foldl (fun n c => n * 10 + (c.toNat - 48)) 0

/-- A natural number as people write it: digits, perhaps with a plus sign in front. -/
def natural? (cs : List Char) : Option Nat :=
  let digits := if cs.head? = some '+' then cs.tail else cs
  if !digits.isEmpty && digits.all Char.isDigit then some (value digits) else none

end TagVersion.Decimal
