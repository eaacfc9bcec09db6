import TagVersion.Git.Sha1
import TagVersion.Text.Decimal

/-!
Objects of a Git repository: commits, trees, blobs and tags. An object is stored as its kind, its
size and its body, and named by the digest of these; reading takes from the body what the rest of
the library asks about.
-/

namespace TagVersion.Git

inductive Kind where
  | commit
  | tree
  | blob
  | tag
deriving DecidableEq, Repr

namespace Kind

def all : List Kind := [.commit, .tree, .blob, .tag]

def name : Kind → String
  | .commit => "commit"
  | .tree => "tree"
  | .blob => "blob"
  | .tag => "tag"

def ofBytes? (name : Bytes) : Option Kind := all.find? fun kind => Bytes.ofText kind.name = name

end Kind

/-- What an entry of a tree or of the index is. -/
inductive Mode where
  | regular
  | executable
  | link
  | folder
  | submodule
deriving DecidableEq, Repr

namespace Mode

/-- The mode as a number, whose digits are written to base eight. -/
def bits : Mode → Nat
  | .regular => 0o100644
  | .executable => 0o100755
  | .link => 0o120000
  | .folder => 0o040000
  | .submodule => 0o160000

/-- The mode that a number means. Of the permissions only the owner's right to execute counts. -/
def ofBits? (n : Nat) : Option Mode :=
  match n / 0o10000 with
  | 0o10 => some (if n / 0o100 % 2 = 1 then .executable else .regular)
  | 0o12 => some .link
  | 0o04 => some .folder
  | 0o16 => some .submodule
  | _ => none

/-- The digits of the number. -/
def text (m : Mode) : String := String.ofList (Nat.toDigits 8 m.bits)

/-- Whether two modes are of one type, so that a change between them is no change of type. -/
def sameType : Mode → Mode → Bool
  | .regular, .executable => true
  | .executable, .regular => true
  | a, b => a = b

end Mode

/-- An entry of a tree. -/
structure TreeEntry where
  mode : Mode
  name : Bytes
  id : ObjectId
deriving DecidableEq

/-- An object as it is stored. -/
structure Raw where
  kind : Kind
  body : Bytes
deriving DecidableEq

namespace Raw

/-- The kind and the size, closed by a zero, and the body. -/
def framed (r : Raw) : Bytes :=
  Bytes.ofText s!"{r.kind.name} {r.body.length}" ++ 0 :: r.body

def id (r : Raw) : ObjectId := .ofNumber (Sha1.digest r.framed)

def ofFramed? (bytes : Bytes) : Option Raw := do
  let (header, body) ← Bytes.cut? 0 bytes
  let (kind, size) ← Bytes.cut? 32 header
  let kind ← Kind.ofBytes? kind
  let size ← Decimal.natural? (Bytes.chars size)
  if size = body.length then some ⟨kind, body⟩ else none

end Raw

/-- An object as it is read. -/
inductive Object where
  | commit (tree : ObjectId) (parents : List ObjectId)
  | tree (entries : List TreeEntry)
  | blob
  /-- A tag with the object it names, the kind it says that object has, and the second it was made
  in, if it says so. -/
  | tag (target : ObjectId) (kind : Kind) (seconds : Option Int)
deriving DecidableEq

namespace Object

def kind : Object → Kind
  | .commit .. => .commit
  | .tree .. => .tree
  | .blob => .blob
  | .tag .. => .tag

/-- A line of a keyword and an id, and what follows it. -/
def idLine? (keyword : String) (bytes : Bytes) : Option (ObjectId × Bytes) := do
  let rest ← (Bytes.ofText keyword).isPrefixOf? bytes
  let id ← (ObjectId.ofText (String.ofList (Bytes.chars (rest.take 40)))).toOption
  match rest.drop 40 with
  | 10 :: rest => some (id, rest)
  | _ => none

/-- Lines of a keyword and an id as long as there are any; there are at most `count`. -/
def idLines (keyword : String) : Nat → Bytes → List ObjectId × Bytes
  | 0, bytes => ([], bytes)
  | count + 1, bytes =>
    match idLine? keyword bytes with
    | some (id, rest) =>
      let (ids, rest) := idLines keyword count rest
      (id :: ids, rest)
    | none => ([], bytes)

/-- A whole number of sixty-four bits in front, behind blanks and a sign. -/
def integer? (bytes : Bytes) : Option Int :=
  let bytes := bytes.dropWhile Bytes.isBlank
  let negative := bytes.head? = some 45
  let bytes := if negative || bytes.head? = some 43 then bytes.tail else bytes
  let digits := (Bytes.chars bytes).takeWhile Char.isDigit
  let n : Int := Decimal.value digits
  let n := if negative then -n else n
  if digits.isEmpty || n < -(Int.pow 2 63) || Int.pow 2 63 ≤ n then none else some n

/-- What follows the last occurrence of a byte. -/
def afterLast? (byte : UInt8) (bytes : Bytes) : Option Bytes :=
  if bytes.contains byte then some (bytes.reverse.takeWhile (· != byte)).reverse else none

/-- A line of a keyword, a name, an address in angle brackets and a time: the seconds of the time,
zero if there is none, and what follows the line. -/
def signature? (keyword : String) (bytes : Bytes) : Option (Int × Bytes) := do
  let (line, rest) ← Bytes.cut? 10 bytes
  let signed ← (Bytes.ofText keyword).isPrefixOf? line
  let opened ← afterLast? 60 signed
  let time ← afterLast? 62 signed
  if opened.length ≤ time.length then none
  else if time.length < 2 then some (0, rest)
  else return (← integer? time.tail, rest)

def ofCommit? (body : Bytes) : Option Object := do
  let (root, rest) ← idLine? "tree " body
  let (parents, rest) := idLines "parent " rest.length rest
  let (_, rest) ← signature? "author " rest
  let _ ← signature? "committer " rest
  return .commit root parents

/-- Whether an empty line follows at some place. -/
def hasEmptyLine : Bytes → Bool
  | 10 :: 10 :: _ => true
  | _ :: rest => hasEmptyLine rest
  | [] => false

/-- The second that a tag was made in, where what follows the tag's name says so. The message
comes after an empty line, if anything does. -/
def tagged? : Bytes → Option (Option Int)
  | [] => some none
  | 10 :: _ => some none
  | rest => do
    let (seconds, rest) ← signature? "tagger " rest
    if rest.isEmpty || rest.head? = some 10 || hasEmptyLine rest then some (some seconds) else none

def ofTag? (body : Bytes) : Option Object := do
  let (target, rest) ← idLine? "object " body
  let rest ← (Bytes.ofText "type ").isPrefixOf? rest
  let (kind, rest) ← Bytes.cut? 10 rest
  let kind ← Kind.ofBytes? kind
  let rest ← (Bytes.ofText "tag ").isPrefixOf? rest
  let (_, rest) ← Bytes.cut? 10 rest
  return .tag target kind (← tagged? rest)

/-- The number that digits to base eight write. -/
def octal? (digits : Bytes) : Option Nat :=
  if digits.isEmpty then none
  else digits.foldlM (fun n b => if 48 ≤ b && b ≤ 55 then some (n * 8 + (b.toNat - 48)) else none) 0

/-- The entries of a tree, of which there are at most `count`. -/
def entries? : Nat → Bytes → Option (List TreeEntry)
  | 0, bytes => if bytes.isEmpty then some [] else none
  | count + 1, bytes =>
    if bytes.isEmpty then some []
    else do
      let (mode, rest) ← Bytes.cut? 32 bytes
      let mode ← Mode.ofBits? (← octal? mode)
      let (name, rest) ← Bytes.cut? 0 rest
      if rest.length < 20 || name.isEmpty then none
      else
        return ⟨mode, name, .ofBytes (rest.take 20)⟩ :: (← entries? count (rest.drop 20))

def ofRaw? (r : Raw) : Option Object :=
  match r.kind with
  | .commit => ofCommit? r.body
  | .tree => (entries? r.body.length r.body).map .tree
  | .blob => some .blob
  | .tag => ofTag? r.body

end Object

namespace Raw

/-! ### Writing -/

def blob (content : Bytes) : Raw := ⟨.blob, content⟩

/-- A tree of entries that are in their order. -/
def tree (entries : List TreeEntry) : Raw :=
  ⟨.tree, entries.flatMap fun e =>
    Bytes.ofText e.mode.text ++ 32 :: e.name ++ 0 :: e.id.bytes⟩

/-- The person that signs what is made here. -/
def signer : String := "T <t@example.com>"

def commit (tree : ObjectId) (parents : List ObjectId) (message : String) (seconds : Int) : Raw :=
  let parents := parents.map fun p => s!"parent {p.text}\n"
  let signature := s!"{signer} {seconds} +0000"
  ⟨.commit, Bytes.ofText <| s!"tree {tree.text}\n" ++ String.join parents ++
    s!"author {signature}\ncommitter {signature}\n\n{message}"⟩

/-- A tag object on an object of a kind that is written as `kind`. -/
def tag (name : String) (target : ObjectId) (kind : String) (seconds : Option Int) : Raw :=
  let tagger := (seconds.map fun s => s!"tagger {signer} {s} +0000\n").getD ""
  ⟨.tag, Bytes.ofText s!"object {target.text}\ntype {kind}\ntag {name}\n{tagger}\nm\n"⟩

end Raw

end TagVersion.Git
