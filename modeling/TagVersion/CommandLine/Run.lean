import TagVersion.CommandLine.Arguments
import TagVersion.Config.Load
import TagVersion.Resolver

/-!
A run of the program: the command line is read, the prefix on it is checked, the configuration is
loaded, and the command prints its result. The first thing that is wrong ends the run, and then
nothing is printed. The repository is looked for twice, at first only to find its configuration.
-/

namespace TagVersion

/-- What a run meets with. -/
structure World where
  files : Files
  environment : Config.Environment
  /-- The directory that the program is started in. -/
  directory : String
  surroundings : Surroundings

namespace CommandLine

/-- Why a run fails. -/
inductive Failure where
  /-- The prefix on the command line is none. -/
  | tagPrefix (e : VersionError)
  | configuration (e : Config.Failure)
  | resolution (e : VersionError)
deriving DecidableEq, Repr

/-- What is told of a failure: what was tried, why it failed, and why that was. -/
def Failure.message : Failure → String
  | .tagPrefix e => e.message
  | .configuration e =>
    String.intercalate ": " (["failed to load configuration", e.message] ++ e.source.toList)
  | .resolution e => s!"failed to resolve version: {e.message}"

/-- How a run ends. -/
inductive Ending where
  /-- The command line is at fault, or asks about the program. -/
  | stopped (why : Arguments.Stop)
  | failed (e : Failure)
  | printed (text : String)
deriving DecidableEq, Repr

namespace Ending

def exitCode : Ending → Nat
  | .stopped why => why.exitCode
  | .failed _ => 1
  | .printed _ => 0

/-- What `--version` prints. -/
def versionText : String := "gitversion 0.1.0\n"

/-- What `--help` prints. -/
def helpText : String :=
  "Usage: gitversion [--cwd <CWD>] [--prefix <PREFIX>] [--debug] [COMMAND]\n\n" ++
  "Commands:\n" ++
  "  print-version  Print the version string (default)\n" ++
  "  details        Print every version detail; with --json as one JSON object\n" ++
  "  help           Print this message\n"

/-- What a run prints for other programs to read. -/
def output : Ending → String
  | .stopped .version => versionText
  | .stopped .help => helpText
  | .stopped _ => ""
  | .failed _ => ""
  | .printed text => text

/-- What a run prints for people to read. -/
def complaint : Ending → String
  | .stopped why =>
    if why.isError then "error: the arguments are not understood\n\n" ++ helpText else ""
  | .failed e => s!"error: {e.message}\n"
  | .printed _ => ""

end Ending

/-- What a command prints about the details of a version. -/
def render (command : Command) (d : Details) : String :=
  match command with
  | .printVersion => d.version ++ "\n"
  | .details true => d.json ++ "\n"
  | .details false => d.table

/-- The part of the program that these log lines come from. -/
def logTarget : String := "gitversion::cli"

/-- The log lines about a configuration: a warning for each file that is not used, and a line for
each that is. -/
def configLines (c : Config) : List Log.Line :=
  c.warnings.map (fun _ => ⟨.warn, logTarget⟩) ++
    (c.globalPath.toList ++ c.repoPath.toList).map fun _ => ⟨.debug, logTarget⟩

/-- The prefix that holds: that of the command line, even if it is empty, else the configured. -/
def effectivePrefix (flag configured : Option String) : Option String := flag.or configured

/-- How a run ended, and the lines that it wrote to the log. -/
structure Report where
  ending : Ending
  log : List Log.Line := []

/-- The directory that a run is about. -/
def directory (w : World) (a : Arguments) : String := a.cwd.getD w.directory

/-- The configuration of a run. Not being in a repository is no fault here. -/
def configure (w : World) (a : Arguments) : Except Failure Config := do
  if let some text := a.tagPrefix then
    let _ ← (Prefix.ofText text).mapError .tagPrefix
  let root := ((w.surroundings.openAt (directory w a)).toOption).map Opened.workTree
  (Config.load w.files w.environment root).mapError .configuration

/-- Carries out the arguments. Lines are logged only once the configuration is known. -/
def carryOut (w : World) (a : Arguments) : Report :=
  match configure w a with
  | .error e => { ending := .failed e }
  | .ok config =>
    let filter := Log.Filter.choose a.debug w.environment.log config.log
    let resolving := ({} : Resolver).resolve w.surroundings (directory w a)
      (effectivePrefix a.tagPrefix config.tagPrefix)
    let ((_, outcome), lines) := resolving.run (configLines config)
    { log := lines.filter filter.admits
      ending :=
        match outcome with
        | .ok details => .printed (render a.effective details)
        | .error e => .failed (.resolution e) }

/-- Runs the program. -/
def run (w : World) (words : List String) : Report :=
  match Arguments.parse words with
  | .error why => { ending := .stopped why }
  | .ok a => carryOut w a

end CommandLine

end TagVersion
