import TagVersion.Files
import TagVersion.Path

/-!
Trees of files in memory. A tree maps the names on the way from the root to what lies there: a
file, a symbolic link, or a directory. Paths are followed through links, and changes are made the
way a file system makes them.
-/

namespace TagVersion

/-- What lies at a place of a tree. -/
inductive FileTree.Node where
  | file (content : Bytes) (executable : Bool)
  | link (target : String)
  | folder
deriving DecidableEq, Repr

/-- The places that are taken, each once. The root is a directory and is not listed. -/
structure FileTree where
  nodes : List (List String × FileTree.Node) := []

namespace FileTree

/-- A place, as the names on the way from the root. -/
abbrev Place := List String

/-- What lies at a place itself, links not followed. -/
def node? (t : FileTree) : Place → Option Node
  | [] => some .folder
  | place => t.nodes.lookup place

def isFolder (t : FileTree) (place : Place) : Bool := t.node? place == some .folder

/-- The names in a path one after the other. A slash at the end asks for a directory, as `.`
does. -/
def steps (path : String) : List String :=
  Path.segments path ++ (if path.toList.getLast? = some '/' then ["."] else [])

/-- How many links may be followed on one way. -/
def linkLimit : Nat := 40

/-- Follows names from a directory, with at most `links` links on the way. The last name is
followed too if it is a link, unless `stay` is set. -/
def follow (t : FileTree) (stay : Bool) (links : Nat) (here : Place) : List String → Option Place
  | [] => some here
  | "." :: rest => follow t stay links here rest
  | ".." :: rest => follow t stay links here.dropLast rest
  | name :: rest =>
    match t.node? (here ++ [name]) with
    | none => none
    | some .folder => follow t stay links (here ++ [name]) rest
    | some (.file _ _) => if rest.isEmpty then some (here ++ [name]) else none
    | some (.link target) =>
      if stay && rest.isEmpty then some (here ++ [name])
      else if target.isEmpty then none
      else
        match links with
        | 0 => none
        | links + 1 =>
          let start := if Path.isAbsolute target then [] else here
          follow t stay links start (steps target ++ rest)
termination_by names => (links, names.length)

/-- The place that a path leads to, from a directory if the path is relative. -/
def resolve? (t : FileTree) (cwd : Place) (path : String) : Option Place :=
  if path.isEmpty then none
  else t.follow false linkLimit (if Path.isAbsolute path then [] else cwd) (steps path)

/-- The same, but a link at the end of the path is not followed. -/
def locate? (t : FileTree) (cwd : Place) (path : String) : Option Place :=
  if path.isEmpty then none
  else t.follow true linkLimit (if Path.isAbsolute path then [] else cwd) (steps path)

/-- What a path leads to. -/
def find? (t : FileTree) (cwd : Place) (path : String) : Option Node :=
  (t.resolve? cwd path).bind t.node?

/-- The content of the file at a place. -/
def content? (t : FileTree) (place : Place) : Option Bytes :=
  match t.node? place with
  | some (.file content _) => some content
  | _ => none

/-- The tree as a program sees it from a directory. -/
def files (t : FileTree) (cwd : Place) : Files := fun path =>
  match t.find? cwd path with
  | some (.file content _) => .content content
  | _ => .absent

/-- A place as an absolute path. -/
def pathOf (place : Place) : String := "/" ++ String.intercalate "/" place

/-- Everything below a directory, by the names on the way from it. -/
def below (t : FileTree) (folder : Place) : List (Place × Node) :=
  t.nodes.filterMap fun (place, node) =>
    match folder.isPrefixOf? place with
    | some [] | none => none
    | some rest => some (rest, node)

/-! ### Changes -/

/-- Puts something at a place, instead of what was there. -/
def set (t : FileTree) (place : Place) (node : Node) : FileTree :=
  match t.nodes.lookup place with
  | some _ => ⟨t.nodes.map fun (p, old) => (p, if p = place then node else old)⟩
  | none => ⟨(place, node) :: t.nodes⟩

/-- Takes away what lies at a place, and all below it. -/
def remove (t : FileTree) (place : Place) : FileTree :=
  ⟨t.nodes.filter fun (p, _) => !place.isPrefixOf p⟩

/-- Goes down from a directory, making the directories that are missing. Links are followed. -/
def enter (t : FileTree) (here : Place) : List String → FileTree × Place
  | [] => (t, here)
  | name :: rest =>
    match t.node? (here ++ [name]) with
    | none => enter (t.set (here ++ [name]) .folder) (here ++ [name]) rest
    | some (.link target) =>
      match t.resolve? here target with
      | some place => enter t place rest
      | none => enter t (here ++ [name]) rest
    | some _ => enter t (here ++ [name]) rest

/-- Makes a directory and those above it. -/
def makeFolder (t : FileTree) (place : Place) : FileTree := (t.enter [] place).1

/-- Where a file ends up that is written under a name in a directory. Links are followed, the last
one also to where nothing lies yet. -/
def landing (t : FileTree) : Nat → Place → String → Place
  | 0, folder, name => folder ++ [name]
  | links + 1, folder, name =>
    match t.node? (folder ++ [name]) with
    | some (.link target) =>
      let start := if Path.isAbsolute target then [] else folder
      let names := Path.segments target
      match names.getLast?, t.follow false links start names.dropLast with
      | some last, some folder => landing t links folder last
      | _, _ => folder ++ [name]
    | _ => folder ++ [name]

/-- Writes a file and makes the directories above it. A file that is there stays executable, and a
link is written through. -/
def write (t : FileTree) (place : Place) (content : Bytes) : FileTree :=
  match place.getLast? with
  | none => t
  | some name =>
    let (t, folder) := t.enter [] place.dropLast
    let target := (t.follow false linkLimit folder [name]).getD (t.landing linkLimit folder name)
    match t.node? target with
    | some (.file _ executable) => t.set target (.file content executable)
    | _ => t.set target (.file content false)

/-- Makes a link and the directories above it. -/
def symlink (t : FileTree) (place : Place) (target : String) : FileTree :=
  match place.getLast? with
  | none => t
  | some name =>
    let (t, folder) := t.enter [] place.dropLast
    t.set (folder ++ [name]) (.link target)

/-- Makes a file executable, or not. -/
def setExecutable (t : FileTree) (place : Place) (executable : Bool) : FileTree :=
  match t.follow false linkLimit [] place with
  | none => t
  | some place =>
    match t.node? place with
    | some (.file content _) => t.set place (.file content executable)
    | _ => t

end FileTree

end TagVersion
