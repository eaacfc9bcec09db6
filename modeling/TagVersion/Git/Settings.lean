import TagVersion.Text.Blank
import TagVersion.Text.Bytes
import TagVersion.Text.Decimal

/-!
The settings that a repository keeps in a file of sections, each with keys and values. A key is
named with its section, in lower case; of several values the last one counts.
-/

namespace TagVersion.Git

/-- A key with its section, and its value if one is written. -/
abbrev Setting := String × Option String

namespace Settings

/-- The name of a section from what stands between its brackets. -/
def section? (inner : List Char) : Option String :=
  let name := String.ofList ((inner.takeWhile (· != ' ')).map Char.toLower)
  match (Blank.trim (inner.dropWhile (· != ' '))) with
  | [] => if name.isEmpty then none else some name
  | '"' :: rest =>
    if rest.getLast? = some '"' then some (name ++ "." ++ String.ofList rest.dropLast) else none
  | _ => none

/-- A value without the quotes in it and without the remark behind it. -/
def value (inside : Bool) : List Char → List Char
  | [] => []
  | '\\' :: c :: rest =>
    (if c = 'n' then '\n' else if c = 't' then '\t' else c) :: value inside rest
  | '"' :: rest => value (!inside) rest
  | c :: rest => if !inside && (c = '#' || c = ';') then [] else c :: value inside rest

/-- Whether a name may stand in front of a value. -/
def isKey (cs : List Char) : Bool :=
  cs.head?.any Char.isAlpha && cs.all fun c => c.isAlphanum || c == '-'

/-- Reads a line in a section: the section that is open after it, and the setting if it is one. -/
def line? (current : Option String) (cs : List Char) : Option (Option String × Option Setting) :=
  match Blank.trim cs with
  | [] => some (current, none)
  | '#' :: _ => some (current, none)
  | ';' :: _ => some (current, none)
  | '[' :: rest =>
    let inner := rest.takeWhile (· != ']')
    if inner.length = rest.length then none
    else (section? inner).map fun name => (some name, none)
  | cs => do
    let key := Blank.trim (cs.takeWhile (· != '='))
    if !isKey key then none
    let name := (← current) ++ "." ++ String.ofList (key.map Char.toLower)
    match cs.dropWhile (· != '=') with
    | [] => return (current, some (name, none))
    | _ :: rest =>
      let text := Blank.trim (value false (Blank.trim rest))
      return (current, some (name, some (String.ofList text)))

/-- Reads lines. -/
def lines? (current : Option String) : List (List Char) → Option (List Setting)
  | [] => some []
  | cs :: rest => do
    let (opened, setting) ← line? current cs
    return setting.toList ++ (← lines? opened rest)

/-- Reads the file. -/
def ofBytes? (content : Bytes) : Option (List Setting) := do
  lines? none ((← content.text?).toList.splitOn '\n')

/-- The value of a key, and whether it is written. -/
def find (settings : List Setting) (key : String) : Option (Option String) :=
  settings.reverse.lookup key

/-- The truth that a value says; a key without a value says yes. -/
def truth? : Option String → Option Bool
  | none => some true
  | some text =>
    match String.ofList (text.toList.map Char.toLower) with
    | "true" | "yes" | "on" => some true
    | "false" | "no" | "off" | "" => some false
    | text => (Decimal.natural? text.toList).map (· != 0)

end Settings

end TagVersion.Git
