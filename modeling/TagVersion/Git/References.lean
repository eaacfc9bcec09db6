import TagVersion.FileTree
import TagVersion.Git.Store

/-!
References as files. A reference is a file of its own below the directory of the repository, or a
line of the file of packed references, which counts where there is no file. It names an object, or
another reference, and the tip is found by going from reference to reference.
-/

namespace TagVersion.Git

/-- Where a repository lies: its own directory, the directory that it shares with its linked work
trees, and the work tree. -/
structure Layout where
  own : FileTree.Place
  shared : FileTree.Place
  workTree : FileTree.Place
deriving DecidableEq, Repr

namespace Target

/-- What a reference to another reference starts with. -/
def symbolicMark : Bytes := Bytes.ofText "ref: "

/-- Reads the file of a reference: the mark and a name, or an id and then nothing, or a blank and
anything. -/
def ofBytes? (content : Bytes) : Option Target :=
  match symbolicMark.isPrefixOf? content with
  | some name =>
    let name := Bytes.trimEnd name
    if name.isEmpty then none else some (.symbolic name)
  | none =>
    let follows := (content.drop 40).head?.getD 0
    if follows = 0 || Bytes.isBlank follows then
      (ObjectId.ofText (String.ofList (Bytes.chars (content.take 40)))).toOption.map .direct
    else none

end Target

namespace References

/-- The lines at the start that are remarks, passed over. -/
def skipRemarks : Nat → Bytes → Option Bytes
  | count + 1, 35 :: rest => do skipRemarks count (← Bytes.cut? 10 rest).2
  | _, bytes => some bytes

/-- What follows a line with the object that a tag leads to, if one stands here. -/
def skipPeeled : Bytes → Option Bytes
  | 94 :: rest => do
    let _ ← (ObjectId.ofText (String.ofList (Bytes.chars (rest.take 40)))).toOption
    match rest.drop 40 with
    | [] => some []
    | rest => some (← Bytes.cut? 10 rest).2
  | bytes => some bytes

/-- The lines of packed references, each an id, a blank and a name; there are at most `count`. -/
def packedLines? : Nat → Bytes → Option (List (Bytes × ObjectId))
  | 0, bytes => if bytes.isEmpty then some [] else none
  | count + 1, bytes =>
    if bytes.isEmpty then some []
    else do
      let id ← (ObjectId.ofText (String.ofList (Bytes.chars (bytes.take 40)))).toOption
      match bytes.drop 40 with
      | 32 :: rest =>
        let (name, rest) ← Bytes.cut? 10 rest
        let name := if name.getLast? = some 13 then name.dropLast else name
        if name.contains 0 then none
        else return (name, id) :: (← packedLines? count (← skipPeeled rest))
      | _ => none

/-- The references in the file of packed references. Of two lines for one name the last counts. -/
def packed? (content : Bytes) : Option (List (Bytes × ObjectId)) := do
  let lines ← packedLines? content.length (← skipRemarks content.length content)
  return lines.reverse

/-- The same as found on disk; none if there is no such file. -/
def packed (t : FileTree) (layout : Layout) : Except Int (List (Bytes × ObjectId)) :=
  match t.content? (layout.shared ++ ["packed-refs"]) with
  | none => .ok []
  | some content =>
    match packed? content with
    | some refs => .ok refs
    | none => .error Code.general

/-- The name of the reference to the tip. -/
def tipName : Bytes := Bytes.ofText "HEAD"

/-- The file of a reference below a directory. -/
def file? (t : FileTree) (folder : FileTree.Place) (name : Bytes) : Option Bytes := do
  let place ← t.follow false FileTree.linkLimit folder (FileTree.steps (← name.text?))
  t.content? place

/-- Looks a reference up. -/
def find (t : FileTree) (layout : Layout) (name : Bytes) : Except Int Target :=
  let folder := if name = tipName then layout.own else layout.shared
  match file? t folder name with
  | some content =>
    match Target.ofBytes? content with
    | some target => .ok target
    | none => .error Code.general
  | none => do
    match (← packed t layout).lookup name with
    | some id => return .direct id
    | none => throw Code.notFound

/-- How many references may follow on one another. -/
def depth : Nat := 5

/-- Goes from reference to reference to an object. -/
def follow (t : FileTree) (layout : Layout) : Nat → Bytes → Target → Except Int Tip
  | _, name, .direct id => .ok ⟨name, id⟩
  | 0, _, .symbolic _ => .error Code.general
  | bound + 1, _, .symbolic name => do follow t layout bound name (← find t layout name)

/-! ### Names of references -/

/-- Whether a byte may stand in a name. -/
def isNameByte (b : UInt8) : Bool := 32 < b && !(Bytes.ofText "~^:\\?[*").contains b

/-- Whether two bytes follow on one another somewhere. -/
def hasPair (a b : UInt8) : Bytes → Bool
  | x :: y :: rest => (x == a && y == b) || hasPair a b (y :: rest)
  | _ => false

/-- Whether a part of a name is allowed. -/
def isPart (part : Bytes) : Bool :=
  part.head? != some 46 && part.all isNameByte && !hasPair 46 46 part && !hasPair 64 123 part &&
    !(Bytes.ofText ".lock").isSuffixOf part

/-- Whether a part is made of capitals, with underscores between them. -/
def isShouted (part : Bytes) : Bool :=
  part.all (fun b => (65 ≤ b && b ≤ 90) || b == 95) && part.head? != some 95 &&
    part.getLast? != some 95

/-- A name without repeated slashes, if it is allowed. A single part must be in capitals, and the
first of several parts must not. -/
def normalName? (name : Bytes) : Option Bytes :=
  let parts := name.splitOn 47
  let kept := parts.filter (!·.isEmpty)
  let last := parts.getLast?.getD []
  if name.head? = some 47 || !parts.all isPart || last.isEmpty || last.getLast? = some 46 then none
  else
    match kept with
    | [part] => if isShouted part then some part else none
    | first :: _ => if isShouted first then none else some (List.intercalate [47] kept)
    | [] => none

/-! ### The tip and the tags -/

/-- The tip. A reference that is not there means that there is no commit yet. -/
def tip (t : FileTree) (layout : Layout) : Except Int (Option Tip) := do
  match ← find t layout tipName with
  | .direct id => return some ⟨tipName, id⟩
  | .symbolic name =>
    match normalName? name with
    | none => throw Code.invalid
    | some name =>
      match find t layout name >>= follow t layout depth name with
      | .ok tip => return some tip
      | .error code => if code = Code.notFound then return none else throw code

/-- The namespace of tags. -/
def tagFolder : List String := ["refs", "tags"]

def tagSpace : Bytes := Bytes.ofText "refs/tags/"

/-- The tags that have files of their own. A file that cannot be read is no tag, nor is one that
another program holds while it writes. -/
def looseTags (t : FileTree) (layout : Layout) : List (Bytes × Target) :=
  (t.below (layout.shared ++ tagFolder)).filterMap fun (names, node) => do
    if node = .folder then none
    let name := Bytes.ofText (String.intercalate "/" names)
    if (Bytes.ofText ".lock").isSuffixOf name then none
    let target ← Target.ofBytes? (← file? t layout.shared (tagSpace ++ name))
    return (name, target)

/-- The references in the namespace of tags. -/
def tags (t : FileTree) (layout : Layout) : Except Int (List (Bytes × Target)) := do
  let packed ← packed t layout
  let loose := looseTags t layout
  let others := (packed.eraseDupsBy fun a b => a.1 = b.1).filterMap fun (name, id) => do
    let name ← tagSpace.isPrefixOf? name
    match loose.lookup name with
    | some _ => none
    | none => some (name, Target.direct id)
  return loose ++ others

end References

end TagVersion.Git
