import TagVersion.Config.Schema
import TagVersion.Files
import TagVersion.Path

/-!
Finding and reading the configuration. Of the places for a global file the first that has one
counts. A repository has two places: a file that is committed with it, which comes first, and a
file of one clone. Both files are read before either is checked.
-/

namespace TagVersion

namespace Config

/-- Why the configuration cannot be used. -/
inductive Failure where
  | unreadable (path why : String)
  /-- What is wrong with the text of a file is left out: those words are the TOML parser's own. -/
  | unparsable (path : String)
  | invalid (value : Invalid)
deriving DecidableEq, Repr

namespace Failure

/-- What a failure says. Of a text that is no TOML, or has other keys, only the beginning is here:
a colon and the words of the TOML parser would follow. -/
def message : Failure → String
  | .unreadable path why => s!"failed to read config file '{path}': {why}"
  | .unparsable path => s!"failed to parse config file '{path}'"
  | .invalid value => s!"invalid config value: {value.message}"

/-- The failure behind this one, if there is one. -/
def source : Failure → Option String
  | .unreadable _ why => some why
  | _ => none

end Failure

/-- What to tell the user about a file that is not used. -/
structure Warning where
  message : String
  path : String
deriving DecidableEq, Repr

/-- Variables of the environment that matter, as far as they are set. -/
structure Environment where
  /-- A global file of the user's choice. -/
  file : Option String := none
  /-- The directory where the user keeps configuration. -/
  configHome : Option String := none
  home : Option String := none
  /-- The home directory of the account, where the environment names none. -/
  accountHome : Option String := none
  /-- A filter of log lines. -/
  log : Option String := none
deriving DecidableEq, Repr

/-- The user's home directory. An empty name is none. -/
def Environment.homeDirectory (env : Environment) : Option String :=
  (env.home.filter (!·.isEmpty)).or env.accountHome

/-- The places for a global file, first choice first. -/
def Environment.candidates (env : Environment) : List String :=
  env.file.toList ++
    (env.configHome.map (Path.join · "gitversion/config.toml")).toList ++
    (env.homeDirectory.map (Path.join · ".gitversion/config.toml")).toList

/-- The file that is committed with a repository, by the root of its work tree. -/
def sharedPath (root : String) : String := Path.join root ".gitversion.toml"

/-- The file of one clone. -/
def localPath (root : String) : String := Path.join root ".git/gitversion/config.toml"

/-- Reads a file of settings. -/
def readFile {α : Type} (files : Files) (decode : String → Option α) (path : String) :
    Except Failure α := do
  let text ← (files.readText path).mapError (.unreadable path)
  match decode text with
  | some settings => return settings
  | none => throw (.unparsable path)

/-- The global settings, and the file that they were read from. -/
def readGlobal (files : Files) (candidates : List String) :
    Except Failure (Global × Option String) :=
  match candidates.find? fun path => (files path).isFile with
  | some path => return (← readFile files Global.ofText? path, some path)
  | none => return ({}, none)

/-- The file of a repository's settings, if there is one. -/
def repoPath? (files : Files) (root : String) : Option String :=
  if (files (sharedPath root)).isFile then some (sharedPath root)
  else if (files (localPath root)).isFile then some (localPath root)
  else none

/-- The settings of a repository, and the file that they were read from. -/
def readRepo (files : Files) (root : String) : Except Failure (Option (Repo × String)) :=
  match repoPath? files root with
  | some path => return some (← readFile files Repo.ofText? path, path)
  | none => return none

/-- A warning if both files of a repository are there. -/
def shadowed (files : Files) (root : String) : List Warning :=
  if (files (sharedPath root)).isFile && (files (localPath root)).isFile then
    [{ message := s!"Ignoring config file; '{sharedPath root}' takes precedence"
       path := localPath root }]
  else []

end Config

/-- The configuration of a run. -/
structure Config where
  global : Config.Global := {}
  globalPath : Option String := none
  repo : Option Config.Repo := none
  repoPath : Option String := none
  warnings : List Config.Warning := []
deriving DecidableEq, Repr

namespace Config

/-- The prefix: what the repository's file says, else what the global file says. -/
def tagPrefix (c : Config) : Option String := (c.repo.bind Repo.tagPrefix).or c.global.tagPrefix

def log (c : Config) : Option String := c.global.log

/-- Loads the configuration with the first global file among some candidates, and with the file of
a repository if the root of a work tree is given. -/
def loadFrom (files : Files) (candidates : List String) (root : Option String) :
    Except Failure Config := do
  let (global, globalPath) ← readGlobal files candidates
  let repo ←
    match root with
    | some root => readRepo files root
    | none => pure none
  global.validate.mapError .invalid
  if let some (repo, _) := repo then repo.validate.mapError .invalid
  return {
    global
    globalPath
    repo := repo.map (·.1)
    repoPath := repo.map (·.2)
    warnings := (root.map (shadowed files)).getD [] }

/-- Loads the configuration from the places that the environment names. -/
def load (files : Files) (env : Environment) (root : Option String) : Except Failure Config :=
  loadFrom files env.candidates root

end Config

end TagVersion
