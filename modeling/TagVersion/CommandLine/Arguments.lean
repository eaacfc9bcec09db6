/-!
The arguments of a command line. Three flags may stand before or behind the command word, and the
ones behind it win; a fourth belongs to one command. Reading stops at the first thing that is
wrong, and at a request for help or for the program's own version.
-/

namespace TagVersion

inductive Command where
  | printVersion
  | details (json : Bool)
deriving DecidableEq, Repr

/-- What a command line asks for. -/
structure Arguments where
  /-- The directory to work in. -/
  cwd : Option String := none
  tagPrefix : Option String := none
  /-- Whether to log for debugging. -/
  debug : Bool := false
  command : Option Command := none
deriving DecidableEq, Repr

namespace Arguments

/-- The command to run. -/
def effective (a : Arguments) : Command := a.command.getD .printVersion

/-- Why a command line is not carried out. -/
inductive Stop where
  | help
  | version
  | unknownArgument
  | unknownCommand
  /-- A flag without its value, or with an empty value where it needs one. -/
  | missingValue
  /-- A value for a flag that takes none. -/
  | surplusValue
  /-- A flag that is given twice on one side of the command word. -/
  | repeated
deriving DecidableEq, Repr

namespace Stop

/-- Whether the command line is at fault. -/
def isError : Stop → Bool
  | .help | .version => false
  | _ => true

def exitCode (s : Stop) : Nat := if s.isError then 2 else 0

end Stop

/-- Where a word stands: before the command word or behind it. -/
inductive Level where
  | top
  | inside (command : Command)
deriving DecidableEq

/-- The flags that take a value. -/
inductive ValueFlag where
  | cwd
  | tagPrefix
deriving DecidableEq

/-- The flags that are given or not. -/
inductive Switch where
  | debug
  | json
deriving DecidableEq

/-- What a word that starts with a hyphen may mean. -/
inductive Flag where
  | value (flag : ValueFlag)
  | switch (flag : Switch)
  | help
  | version
deriving DecidableEq

/-- The flag that is spelled with two hyphens and a name. -/
def Level.long? (level : Level) (name : String) : Option Flag :=
  match name, level with
  | "cwd", _ => some (.value .cwd)
  | "prefix", _ => some (.value .tagPrefix)
  | "debug", _ => some (.switch .debug)
  | "help", _ => some .help
  | "version", .top => some .version
  | "json", .inside (.details _) => some (.switch .json)
  | _, _ => none

/-- The flag that is spelled with one hyphen and a letter. -/
def Level.short? (level : Level) (letter : Char) : Option Flag :=
  match letter, level with
  | 'h', _ => some .help
  | 'V', .top => some .version
  | _, _ => none

/-- The flags given on one side of the command word. -/
structure Given where
  cwd : Option String := none
  tagPrefix : Option String := none
  debug : Bool := false
  json : Bool := false
deriving DecidableEq

/-- A flag whose value stands in a word of its own. It is looked at only when the next flag is
met, or at the end; so another fault may be reported first. -/
inductive Pending where
  | none
  | awaiting (flag : ValueFlag)
  | complete (flag : ValueFlag) (value : String)
deriving DecidableEq

structure State where
  given : Given := {}
  pending : Pending := .none
deriving DecidableEq

/-- Takes down a flag with its value. -/
def Given.assign (g : Given) (value : String) : ValueFlag → Except Stop Given
  | .cwd =>
    if g.cwd.isSome then .error .repeated
    else if value.isEmpty then .error .missingValue
    else .ok { g with cwd := some value }
  | .tagPrefix =>
    if g.tagPrefix.isSome then .error .repeated else .ok { g with tagPrefix := some value }

/-- Takes down a flag without a value. -/
def Given.switchOn (g : Given) : Switch → Except Stop Given
  | .debug => if g.debug then .error .repeated else .ok { g with debug := true }
  | .json => if g.json then .error .repeated else .ok { g with json := true }

/-- The flags with the one that was left open. -/
def State.settle (s : State) : Except Stop Given :=
  match s.pending with
  | .none => .ok s.given
  | .awaiting _ => .error .missingValue
  | .complete flag value => s.given.assign value flag

/-- Takes down a flag that was recognised, with the value behind its `=` if there is one. -/
def State.flag (s : State) (flag : Flag) (attached : Option String) : Except Stop State :=
  match flag, attached with
  | .value flag, some value => do return { given := ← (← s.settle).assign value flag }
  | .value flag, none => do return { given := ← s.settle, pending := .awaiting flag }
  | _, some _ => .error .surplusValue
  | .switch flag, none => do return { given := ← (← s.settle).switchOn flag }
  | .help, none => do
    let _ ← s.settle
    throw .help
  | .version, none => do
    let _ ← s.settle
    throw .version

/-- What a word is by its first characters. -/
inductive Shape where
  /-- Two hyphens alone: only plain words follow. -/
  | dashes
  | long (name : String) (attached : Option String)
  | short (letter : Char)
  | plain
deriving DecidableEq

/-- The name of a flag and what stands behind the first `=`. -/
def splitLong (cs : List Char) : Shape :=
  let name := cs.takeWhile (· != '=')
  match cs.drop name.length with
  | _ :: value => .long (String.ofList name) (some (String.ofList value))
  | [] => .long (String.ofList name) none

def shape (word : String) : Shape :=
  match word.toList with
  | ['-', '-'] => .dashes
  | '-' :: '-' :: rest => splitLong rest
  | '-' :: letter :: _ => .short letter
  | _ => .plain

/-- Takes a word as a flag, or as the value that a flag waits for; neither gives no state. -/
def State.word (s : State) (level : Level) (word : String) : Except Stop (Option State) :=
  match shape word with
  | .long name attached =>
    match level.long? name with
    | some flag => do return some (← s.flag flag attached)
    | none => .error .unknownArgument
  | .short letter =>
    match level.short? letter with
    | some flag => do return some (← s.flag flag none)
    | none => .error .unknownArgument
  | _ =>
    match s.pending with
    | .awaiting flag => .ok (some { s with pending := .complete flag word })
    | _ => .ok none

/-- Whether a flag waits for its value. -/
def State.isAwaiting (s : State) : Bool :=
  match s.pending with
  | .awaiting _ => true
  | _ => false

/-- The flags behind a command word. No plain word may stand there. -/
def inside (command : Command) (s : State) : List String → Except Stop Given
  | [] => s.settle
  | word :: rest =>
    if shape word = .dashes then
      if rest.isEmpty then s.settle else .error .unknownArgument
    else do
      match ← s.word (.inside command) word with
      | some s => inside command s rest
      | none => throw .unknownArgument

/-- The word that asks for help about a command. -/
def helpWord : String := "help"

def command? : String → Option Command
  | "print-version" => some .printVersion
  | "details" => some (.details false)
  | _ => none

/-- Help may be asked for about the program, one command, or help itself. -/
def helpAbout : List String → Stop
  | [] => .help
  | [word] => if (command? word).isSome || word = helpWord then .help else .unknownCommand
  | _ => .unknownCommand

/-- A plain word behind two hyphens at the top, where no command is looked for. -/
def afterDashes (word : String) : Stop :=
  if (command? word).isSome || word = helpWord then .unknownArgument else .unknownCommand

/-- The flags before a command word together with the command and the flags behind it. -/
def merge (outer inner : Given) (command : Command) : Arguments where
  cwd := inner.cwd.or outer.cwd
  tagPrefix := inner.tagPrefix.or outer.tagPrefix
  debug := inner.debug || outer.debug
  command :=
    match command with
    | .printVersion => some .printVersion
    | .details _ => some (.details inner.json)

/-- Reads words from the top on. What is behind the command word is read before a flag that was
left open in front of it is looked at. -/
def top (s : State) : List String → Except Stop Arguments
  | [] => do
    let given ← s.settle
    return { cwd := given.cwd, tagPrefix := given.tagPrefix, debug := given.debug }
  | word :: rest =>
    match if s.isAwaiting then none else command? word with
    | some command => do
      let inner ← inside command {} rest
      return merge (← s.settle) inner command
    | none =>
      if !s.isAwaiting && word = helpWord then .error (helpAbout rest)
      else if shape word = .dashes then
        match rest with
        | [] => top s []
        | word :: _ => .error (afterDashes word)
      else do
        match ← s.word .top word with
        | some s => top s rest
        | none => throw .unknownCommand

/-- Reads a command line, without the name of the program. -/
def parse (words : List String) : Except Stop Arguments := top {} words

end Arguments

end TagVersion
