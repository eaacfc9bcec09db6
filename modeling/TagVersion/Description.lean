import TagVersion.ObjectId
import TagVersion.Text.Decimal

/-!
Descriptions of a commit by a tag: the tag's name, how many commits lie between, and the commit.
`Description.text` writes one, `Description.split?` reads the written form `TAG-N-gHASH` back.
-/

namespace TagVersion

/-- How the tip of the history is described. -/
structure Description where
  tag : Option String
  /-- The commits between the tag and the tip; without a tag, the steps up to the root. They are
  counted in thirty-two bits, so that the count starts again from zero after `2 ^ 32` steps. -/
  distance : UInt32
  shortHash : String
  head : ObjectId
deriving DecidableEq

namespace Description

/-- The number of digits in `shortHash`. -/
def shortLength : Nat := 7

/-- Whether no tag was found, so that the short hash stands for the description. -/
def isFallback (d : Description) : Bool := d.tag.isNone

/-- `TAG-N-gHASH`. -/
def joined (tag : String) (distance : Nat) (hash : String) : String :=
  tag ++ "-" ++ toString distance ++ "-g" ++ hash

/-- The tag alone where it sits on the commit itself, `TAG-N-gHASH` above it, else the hash. -/
def text (d : Description) : String :=
  match d.tag with
  | some tag => if d.distance = 0 then tag else joined tag d.distance.toNat d.shortHash
  | none => d.shortHash

/-- The parts of a written description. -/
structure Parts where
  tag : String
  distance : Nat
  hash : String
deriving DecidableEq, Repr

/-- Distances have thirty-two bits. -/
def distanceBound : Nat := Nat.pow 2 32

/-- Splits `TAG-N-gHASH` at its end: three or more hexadecimal digits for the hash, one or more
decimal digits for the distance, and no line feed in the tag. The tag may hold further such parts,
and may be empty. -/
def splitChars? (cs : List Char) : Option Parts :=
  let (hash, rest) := cs.reverse.span Hex.isDigit
  match rest with
  | 'g' :: '-' :: rest =>
    let (digits, rest) := rest.span Char.isDigit
    match rest with
    | '-' :: tag =>
      let distance := Decimal.value digits.reverse
      if 3 ≤ hash.length && !digits.isEmpty && distance < distanceBound && !tag.contains '\n' then
        some ⟨String.ofList tag.reverse, distance, String.ofList hash.reverse⟩
      else none
    | _ => none
  | _ => none

def split? (text : String) : Option Parts := splitChars? text.toList

end Description

end TagVersion
