import TagVersion.Text.Bytes

/-!
Patterns of file names, as lists of files to ignore are written in. A pattern is read into items,
and an item matches a byte, one of several bytes, or any stretch of a path. In whole paths a slash
is matched only by itself and by two stars that stand for directories.
-/

namespace TagVersion.Git

namespace Glob

/-- The classes of bytes that have names. -/
def classes : List (String × (Char → Bool)) :=
  let printed (c : Char) := 32 ≤ c.toNat && c.toNat < 127
  [("alnum", Char.isAlphanum),
   ("alpha", Char.isAlpha),
   ("blank", fun c => c == ' ' || c == '\t'),
   ("cntrl", fun c => c.toNat < 32 || c.toNat == 127),
   ("digit", Char.isDigit),
   ("graph", fun c => printed c && c != ' '),
   ("lower", Char.isLower),
   ("print", printed),
   ("punct", fun c => printed c && c != ' ' && !c.isAlphanum),
   ("space", fun c => c == ' ' || (9 ≤ c.toNat && c.toNat ≤ 13)),
   ("upper", Char.isUpper),
   ("xdigit", fun c => c.isDigit || ('a' ≤ c && c ≤ 'f') || ('A' ≤ c && c ≤ 'F'))]

/-- What stands between brackets. -/
inductive Member where
  | range (first last : UInt8)
  | named (name : String)
deriving DecidableEq, Repr

def Member.matches (m : Member) (b : UInt8) : Bool :=
  match m with
  | .range first last => first ≤ b && b ≤ last
  | .named name => (classes.lookup name).any fun test => test (Char.ofNat b.toNat)

inductive Item where
  | byte (b : UInt8)
  /-- Any byte. -/
  | one
  | set (negated : Bool) (members : List Member)
  /-- Any stretch; one with slashes only if it `crosses` them. -/
  | star (crosses : Bool)
  /-- Nothing, or any stretch that a slash closes. -/
  | folders
deriving DecidableEq, Repr

/-- The byte between the names of a path. -/
def slash : UInt8 := 47

/-! ### Reading patterns -/

/-- Reads the name of a class up to `:]`, behind `[:`. -/
def className? (bytes : Bytes) : Option (Option (String × Bytes)) := do
  let (inner, rest) ← Bytes.cut? 93 bytes
  if inner.getLast? = some 58 then return some (String.ofList (Bytes.chars inner.dropLast), rest)
  else return none

/-- Reads what stands between brackets; `previous` may begin a range, and a closing bracket in
front, where `opening` is set, stands for itself. -/
def members? (opening : Bool) (previous : Option UInt8) :
    Nat → Bytes → Option (List Member × Bytes)
  | 0, _ => none
  | fuel + 1, bytes => do
    let push (m : Member) (previous : Option UInt8) (rest : Bytes) := do
      let (ms, rest) ← members? false previous fuel rest
      return (m :: ms, rest)
    let plain (b : UInt8) (rest : Bytes) := push (.range b b) (some b) rest
    match bytes, previous with
    | [], _ => none
    | 93 :: rest, _ => if opening then plain 93 rest else return ([], rest)
    | 92 :: b :: rest, _ => plain b rest
    | 45 :: 92 :: b :: rest, some first => push (.range first b) none rest
    | 45 :: b :: rest, some first =>
      if b = 93 then plain 45 (b :: rest) else push (.range first b) none rest
    | 91 :: 58 :: rest, _ =>
      match ← className? rest with
      | some (name, rest) =>
        if (classes.lookup name).isSome then push (.named name) none rest else none
      | none => plain 91 (58 :: rest)
    | b :: rest, _ => if b = 92 then none else plain b rest

/-- Reads an item that begins with stars, `before` being the byte in front. In whole paths two
stars cross slashes only as a name of their own. -/
def stars (wholePath : Bool) (before : Option UInt8) (bytes : Bytes) : Item × Bytes :=
  let rest := bytes.dropWhile (· = 42)
  if !wholePath then (.star true, rest)
  else if bytes.length = rest.length + 1 then (.star false, rest)
  else if before.all (· = slash) then
    match rest with
    | [] => (.star true, [])
    | 47 :: rest => (.folders, rest)
    | 92 :: 47 :: _ => (.star true, rest)
    | _ => (.star false, rest)
  else (.star false, rest)

/-- Reads a pattern. A backslash or an opening bracket without its end spoils it. -/
def items? (wholePath : Bool) : Nat → Option UInt8 → Bytes → Option (List Item)
  | _, _, [] => some []
  | 0, _, _ => none
  | fuel + 1, before, b :: rest =>
    match b with
    | 92 =>
      match rest with
      | c :: rest => do return .byte c :: (← items? wholePath fuel (some c) rest)
      | [] => none
    | 63 => do return .one :: (← items? wholePath fuel (some b) rest)
    | 42 => do
      let (item, rest) := stars wholePath before (b :: rest)
      let before := if item = .folders then slash else 42
      return item :: (← items? wholePath fuel (some before) rest)
    | 91 => do
      let negated := rest.head? = some 33 || rest.head? = some 94
      let (members, rest) ← members? true none fuel (if negated then rest.tail else rest)
      return .set negated members :: (← items? wholePath fuel (some 93) rest)
    | _ => do return .byte b :: (← items? wholePath fuel (some b) rest)

/-! ### Matching -/

/-- What may be left of a path after a stretch. -/
def leftovers (crosses : Bool) : Bytes → List Bytes
  | [] => [[]]
  | b :: rest => (b :: rest) :: if crosses || b != slash then leftovers crosses rest else []

/-- What follows the slashes of a path. -/
def afterSlashes : Bytes → List Bytes
  | [] => []
  | b :: rest => if b = slash then rest :: afterSlashes rest else afterSlashes rest

/-- Whether items match all of a path. -/
def matchItems (wholePath : Bool) : List Item → Bytes → Bool
  | [], path => path.isEmpty
  | .byte b :: items, path =>
    match path with
    | c :: path => b == c && matchItems wholePath items path
    | [] => false
  | .one :: items, path =>
    match path with
    | c :: path => !(wholePath && c == slash) && matchItems wholePath items path
    | [] => false
  | .set negated members :: items, path =>
    match path with
    | c :: path =>
      !(wholePath && c == slash) && (members.any (·.matches c) != negated) &&
        matchItems wholePath items path
    | [] => false
  | .star crosses :: items, path => (leftovers crosses path).any (matchItems wholePath items)
  | .folders :: items, path => (path :: afterSlashes path).any (matchItems wholePath items)

end Glob

/-- Whether a pattern matches a name, or a whole path if it is meant for one. -/
def Glob.matches (wholePath : Bool) (pattern path : Bytes) : Bool :=
  (items? wholePath pattern.length none pattern).any fun items => matchItems wholePath items path

end TagVersion.Git
