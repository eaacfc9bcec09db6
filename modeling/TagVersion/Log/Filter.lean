import TagVersion.Log.Level
import TagVersion.Text.Alphanumeric
import TagVersion.Text.Blank
import TagVersion.Text.Decimal

/-!
Filters of log lines. A filter is written as directives with commas between them; a directive is
a level, a target, or a target with a level behind `=`. The directive with the longest target that
a line's own target starts with decides about the line.
-/

namespace TagVersion.Log

/-- How much is let through of the lines whose target starts with a text, or of all lines. -/
structure Directive where
  target : Option String
  threshold : Threshold
deriving DecidableEq, Repr

/-- Why a text is no filter. -/
inductive Refusal where
  | directive
  | level
deriving DecidableEq, Repr

def Refusal.message : Refusal → String
  | .directive => "invalid filter directive"
  | .level =>
    "error parsing level filter: expected one of \"off\", \"error\", \"warn\", \"info\", " ++
      "\"debug\", \"trace\", or a number 0-5"

/-- A threshold by its name, in letters of either case, or by its number. -/
def Threshold.ofChars? (cs : List Char) : Option Threshold :=
  let name := String.ofList (cs.map Char.toLower)
  match Threshold.all.find? (·.name = name) with
  | some threshold => some threshold
  | none => (Decimal.natural? cs).bind (Threshold.all[·]?)

namespace Directive

/-- What a directive may start with. -/
def isStart (c : Char) : Bool :=
  c == '-' || c == ':' || c == '_' || Alphanumeric.isAlphanumeric c

/-- The number of bytes that a list of characters takes. -/
def size (cs : List Char) : Nat := cs.foldl (fun n c => n + c.utf8Size) 0

/-- Cuts a list of characters after a number of bytes, if a character ends there. -/
def cutAt? : Nat → List Char → Option (List Char × List Char)
  | 0, cs => some ([], cs)
  | _, [] => none
  | n, c :: cs =>
    if c.utf8Size ≤ n then (cutAt? (n - c.utf8Size) cs).map fun (u, v) => (c :: u, v) else none

/-- Reads a directive. White space at its ends is passed over when its first character and its
first `=` are looked for, yet the place found counts from the very start; so with white space in
front the target is cut short and the level begins too early. A target without a level, or with
nothing behind `=`, lets every line through.

Two things are simpler than in the language of these directives. A part `[span{field}]` behind the
target is not told apart: its characters count as any others do. And a place that falls inside a
character, as the one found in " é=info" does, only makes the directive be refused, where a parser
that cuts up bytes breaks down. -/
def ofChars (part : List Char) : Except Refusal Directive :=
  match Blank.trim part with
  | [] => .error .directive
  | c :: rest =>
    if !isStart c then .error .directive
    else
      let before := (c :: rest).takeWhile (· != '=')
      if before.length = (c :: rest).length then
        match Threshold.ofChars? part with
        | some threshold => .ok ⟨none, threshold⟩
        | none => .ok ⟨some (String.ofList part), .upTo .trace⟩
      else
        match cutAt? (size before) part with
        | some (target, _ :: level) =>
          if level.isEmpty then .ok ⟨some (String.ofList target), .upTo .trace⟩
          else
            match Threshold.ofChars? level with
            | some threshold => .ok ⟨some (String.ofList target), threshold⟩
            | none => .error .level
        | _ => .error .directive

/-- The length of a target in bytes, one more than that if there is one. -/
def weight (d : Directive) : Nat :=
  match d.target with
  | some target => target.utf8ByteSize + 1
  | none => 0

/-- Whether a directive stands in front of another: the longer target does, of targets of one
length the greater. -/
def precedes (d e : Directive) : Bool :=
  match compare d.weight e.weight with
  | .gt => true
  | .lt => false
  | .eq => e.target.getD "" < d.target.getD ""

/-- A directive as it is shown. -/
def text (d : Directive) : String :=
  match d.target with
  | some target => target ++ "=" ++ d.threshold.name
  | none => d.threshold.name

/-- Whether a directive is about a line. -/
def covers (d : Directive) (line : Line) : Bool :=
  match d.target with
  | some target => target.toList.isPrefixOf line.target.toList
  | none => true

end Directive

/-- Directives in the order of `Directive.precedes`, at most one a target. -/
structure Filter where
  directives : List Directive
deriving DecidableEq, Repr

namespace Filter

/-- Puts a directive into its place, instead of one with the same target. -/
def insert (d : Directive) : List Directive → List Directive
  | [] => [d]
  | e :: rest =>
    if d.target = e.target then d :: rest
    else if d.precedes e then d :: e :: rest
    else e :: insert d rest

def ofDirectives (directives : List Directive) : Filter :=
  ⟨directives.foldl (fun placed d => insert d placed) []⟩

/-- Reads a filter. Empty parts are passed over, and the first bad part spoils the whole. -/
def ofText (text : String) : Except Refusal Filter :=
  let parts := (text.toList.splitOn ',').filter (!·.isEmpty)
  (parts.mapM Directive.ofChars).map ofDirectives

def text (f : Filter) : String := String.intercalate "," (f.directives.map Directive.text)

/-- The filter that lets through the lines of all targets up to a level. -/
def upTo (level : Level) : Filter := ⟨[⟨none, .upTo level⟩]⟩

/-- The filter that a source asks for, if its text is not blank and is one. -/
def ofSource? (source : Option String) : Option Filter := do
  let trimmed := Blank.trim (← source).toList
  if trimmed.isEmpty then none else (ofText (String.ofList trimmed)).toOption

/-- The filter of a run: every line up to debugging if that was asked for, else what the
environment says, else what the configuration says, else warnings. -/
def choose (debug : Bool) (environment configured : Option String) : Filter :=
  if debug then upTo .debug
  else ((ofSource? environment).or (ofSource? configured)).getD (upTo .warn)

/-- Whether a line is let through. -/
def admits (f : Filter) (line : Line) : Bool :=
  match f.directives.find? (·.covers line) with
  | some d => d.threshold.admits line.level
  | none => false

end Filter

end TagVersion.Log
