import TagVersion.Log.Filter
import TagVersion.Toml.Document
import TagVersion.VersionError

/-!
What a configuration file may say. There are two kinds of files: a global one, which belongs to a
user, and one of a repository. Both are TOML documents whose keys have strings for values, and a
key that is not known spoils the file. A file that can be read may still hold a value that makes
no sense, which `validate` tells.
-/

namespace TagVersion.Config

/-- The keys of a document that is nothing but known keys with strings. -/
def strings? (known : List String) (members : Toml.Members) : Option (List (String × String)) :=
  members.mapM fun (key, value) =>
    match value with
    | .string text => if key ∈ known then some (key, text) else none
    | _ => none

/-- A value that makes no sense. -/
inductive Invalid where
  | tagPrefix (text : String)
  | log (directive : String) (why : Log.Refusal)
deriving DecidableEq, Repr

def Invalid.message : Invalid → String
  | .tagPrefix text => (VersionError.invalidPrefix text).message
  | .log directive why => s!"invalid log directive '{directive}': {why.message}"

/-- A prefix in a file must be one of the prefixes of tags. -/
def validatePrefix : Option String → Except Invalid Unit
  | none => .ok ()
  | some text =>
    match Prefix.ofText? text with
    | some _ => .ok ()
    | none => .error (.tagPrefix text)

/-- A log directive in a file must be a filter as it stands. -/
def validateLog : Option String → Except Invalid Unit
  | none => .ok ()
  | some directive =>
    match Log.Filter.ofText directive with
    | .ok _ => .ok ()
    | .error why => .error (.log directive why)

/-- The settings of a user. -/
structure Global where
  tagPrefix : Option String := none
  log : Option String := none
deriving DecidableEq, Repr

namespace Global

def ofMembers? (members : Toml.Members) : Option Global := do
  let settings ← strings? ["prefix", "log"] members
  return ⟨settings.lookup "prefix", settings.lookup "log"⟩

def ofText? (text : String) : Option Global := (Toml.Document.read? text).bind ofMembers?

def validate (g : Global) : Except Invalid Unit := do
  validatePrefix g.tagPrefix
  validateLog g.log

end Global

/-- The settings of a repository. -/
structure Repo where
  tagPrefix : Option String := none
deriving DecidableEq, Repr

namespace Repo

def ofMembers? (members : Toml.Members) : Option Repo := do
  let settings ← strings? ["prefix"] members
  return ⟨settings.lookup "prefix"⟩

def ofText? (text : String) : Option Repo := (Toml.Document.read? text).bind ofMembers?

def validate (r : Repo) : Except Invalid Unit := validatePrefix r.tagPrefix

end Repo

end TagVersion.Config
