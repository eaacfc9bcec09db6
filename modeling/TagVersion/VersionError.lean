import TagVersion.Description
import TagVersion.Prefix
import TagVersion.Repository.Failure

/-!
Why no version can be told.
-/

namespace TagVersion

inductive VersionError where
  /-- A prefix that the pattern of prefixes does not allow. -/
  | invalidPrefix (text : String)
  /-- A description that is not of the form `TAG-N-gHASH`. -/
  | malformedDescription (text : String)
  /-- The repository cannot be opened or read. -/
  | repository (failure : Repository.Failure)
deriving DecidableEq, Repr

namespace VersionError

def message : VersionError → String
  | .invalidPrefix text =>
    s!"Specified prefix `{text}` does not match the allowed format regex `{Prefix.pattern}`."
  | .malformedDescription text => s!"cannot get commit distance for description: '{text}'"
  | .repository failure => failure.message

end VersionError

/-- Reads a written description. -/
def Description.parse (text : String) : Except VersionError Description.Parts :=
  match Description.split? text with
  | some parts => .ok parts
  | none => .error (.malformedDescription text)

/-- Reads a prefix. -/
def Prefix.ofText (text : String) : Except VersionError Prefix :=
  match Prefix.ofText? text with
  | some p => .ok p
  | none => .error (.invalidPrefix text)

end TagVersion
