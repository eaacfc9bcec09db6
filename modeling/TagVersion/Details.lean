import TagVersion.Description
import TagVersion.Json.Quoted
import TagVersion.VersionError

/-!
What is known about the version of a work tree. `Details.ofDescription` tells it from a
description of the tip; `Details.json` and `Details.table` print it.
-/

namespace TagVersion

structure Details where
  /-- The description without the prefix, and a mark if the work tree has changes. -/
  version : String
  /-- The tag without the prefix and one `v`. -/
  lastTag : Option String
  /-- The commits between the tag and the tip. -/
  commitDistance : Nat
  /-- The first digits of the tip's id. -/
  hash : String
  /-- The tip's id; empty before the first commit. -/
  fullHash : String
  /-- The branch checked out; empty if none is. -/
  branch : String
  /-- Whether the tip carries the tag and the work tree has no changes. -/
  isCleanTag : Bool
deriving DecidableEq, Repr

namespace Details

/-- The version before the first commit. -/
def unspecified : String := "unspecified"

/-- The mark of a work tree with changes. -/
def dirtyMark : String := ".dirty"

/-- The number of digits in `hash`. It is not the number of digits in a description. -/
def hashLength : Nat := 10

/-- A version, marked if the work tree has changes. -/
def marked (isClean : Bool) (version : String) : String :=
  if isClean then version else version ++ dirtyMark

/-- The version without its mark, the last tag and the distance. The tag and the distance are
read back from the written description once the prefix is taken off; a fallback counts no
distance. -/
def named (p : Prefix) (d : Description) : Except VersionError (String × Option String × Nat) :=
  match d.tag with
  | none => .ok (d.shortHash, none, 0)
  | some _ =>
    let stripped := p.strip d.text
    if d.distance = 0 then .ok (stripped, some stripped, 0)
    else do
      let parts ← Description.parse stripped
      return (stripped, some parts.tag, parts.distance)

/-- The details of a tip that is described by tags with a prefix. Before the first commit there
is no description, and whether the work tree has changes does not matter. -/
def ofDescription (p : Prefix) (description : Option Description) (isClean : Bool)
    (branch : String) : Except VersionError Details :=
  match description with
  | none =>
    .ok {
      version := unspecified
      lastTag := none
      commitDistance := 0
      hash := ""
      fullHash := ""
      branch
      isCleanTag := false }
  | some d => do
    let (version, lastTag, commitDistance) ← named p d
    return {
      version := marked isClean version
      lastTag
      commitDistance
      hash := d.head.short hashLength
      fullHash := d.head.text
      branch
      isCleanTag := isClean && commitDistance == 0 && lastTag.isSome }

/-! ### Printing -/

/-- The details in one line. -/
def summary (d : Details) : String :=
  s!"VersionDetails({d.version}, {d.hash}, {d.fullHash}, {d.branch}, {d.isCleanTag})"

/-- The members of the object that is written as JSON, with their values written. -/
def members (d : Details) : List (String × String) :=
  [("version", Json.quoted d.version),
   ("lastTag", (d.lastTag.map Json.quoted).getD "null"),
   ("commitDistance", toString d.commitDistance),
   ("gitHash", Json.quoted d.hash),
   ("gitHashFull", Json.quoted d.fullHash),
   ("branchName", Json.quoted d.branch),
   ("isCleanTag", if d.isCleanTag then "true" else "false")]

/-- One JSON object, a member a line, indented by two spaces. -/
def json (d : Details) : String :=
  let lines := d.members.map fun (key, value) => "  " ++ Json.quoted key ++ ": " ++ value
  "\x7b\n" ++ String.intercalate ",\n" lines ++ "\n\x7d"

/-- A label of the table and its value, padded so that the values stand in one column. -/
def row (label value : String) : String :=
  let head := label ++ ":"
  head ++ String.ofList (List.replicate (16 - head.length) ' ') ++ value ++ "\n"

/-- A table for people, one row a field. -/
def table (d : Details) : String :=
  row "Version" d.version ++
  row "Last tag" (d.lastTag.getD "(none)") ++
  row "Distance" (toString d.commitDistance) ++
  row "Hash" d.hash ++
  row "Full hash" d.fullHash ++
  row "Branch" (if d.branch.isEmpty then "(detached)" else d.branch) ++
  row "Clean tag" (if d.isCleanTag then "yes" else "no")

end Details

end TagVersion
