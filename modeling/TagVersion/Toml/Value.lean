/-!
Values of TOML and the tables that hold them. A table keeps its members in the order they were
written in, and remembers how it came to be, since that decides what may be added to it later.
-/

namespace TagVersion.Toml

/-- How a table came to be. -/
inductive Origin where
  /-- Written in braces; nothing may be added. -/
  | inline
  /-- Opened by a header of its own. -/
  | header
  /-- Passed through by the header of a table inside it. -/
  | implied
  /-- Passed through by a dotted key. -/
  | dotted
deriving DecidableEq, Repr

inductive Value where
  | string (text : String)
  | integer (n : Int)
  /-- A number with a fraction or an exponent, as it is written. -/
  | float (written : String)
  | boolean (b : Bool)
  /-- A date, a time, or both, as written. -/
  | moment (written : String)
  | array (items : List Value)
  | table (origin : Origin) (members : List (String × Value))
  /-- The tables of one header in double brackets, the last one first. -/
  | tables (items : List (List (String × Value)))

/-- The members of a table. -/
abbrev Members := List (String × Value)

namespace Members

/-- Puts a value in place of the one that a key has. -/
def replace (key : String) (value : Value) (members : Members) : Members :=
  members.map fun (k, old) => (k, if k = key then value else old)

/-- Gives a dotted key a value. A key has one value, and a dotted key adds only to tables that
dotted keys have made. -/
def assign (value : Value) : List String → Members → Option Members
  | [], _ => none
  | [key], members =>
    match members.lookup key with
    | none => some (members ++ [(key, value)])
    | some _ => none
  | key :: path, members =>
    match members.lookup key with
    | none => do return members ++ [(key, .table .dotted (← assign value path []))]
    | some (.table .dotted inner) => do
      return members.replace key (.table .dotted (← assign value path inner))
    | some _ => none

/-- Changes the table that a header names by way of the tables above it, making those that are
not there yet. Of an array of tables the last one is meant. -/
def inside (change : String → Members → Option Members) : List String → Members → Option Members
  | [], _ => none
  | [key], members => change key members
  | key :: path, members =>
    match members.lookup key with
    | none => do return members ++ [(key, .table .implied (← inside change path []))]
    | some (.table .inline _) => none
    | some (.table origin inner) => do
      return members.replace key (.table origin (← inside change path inner))
    | some (.tables (last :: others)) => do
      return members.replace key (.tables ((← inside change path last) :: others))
    | some _ => none

/-- Opens a table by its header, once. -/
def openTable : List String → Members → Option Members :=
  inside fun key members =>
    match members.lookup key with
    | none => some (members ++ [(key, .table .header [])])
    | some (.table .implied inner) => some (members.replace key (.table .header inner))
    | some _ => none

/-- Opens the next table of an array by a header in double brackets. -/
def openNext : List String → Members → Option Members :=
  inside fun key members =>
    match members.lookup key with
    | none => some (members ++ [(key, .tables [[]])])
    | some (.tables items) => some (members.replace key (.tables ([] :: items)))
    | some _ => none

/-- Gives a dotted key a value in the table that was opened last. -/
def assignIn (path : List String) (keys : List String) (value : Value) :
    Members → Option Members :=
  match path with
  | [] => assign value keys
  | path => inside (fun key members =>
    match members.lookup key with
    | some (.table .header inner) => do
      return members.replace key (.table .header (← assign value keys inner))
    | some (.tables (last :: others)) => do
      return members.replace key (.tables ((← assign value keys last) :: others))
    | _ => none) path

end Members

end TagVersion.Toml
