import TagVersion.Git.References
import TagVersion.Git.Settings

/-!
Finding the repository of a directory. It is looked for in the directory and in those above it:
below the name `.git`, in a file of that name that says where it is, and in the directory itself.
A repository without a work tree is refused, and so is a linked work tree.
-/

namespace TagVersion.Git

namespace Discovery

/-- The directory that holds what linked work trees share: the repository's own, unless a file
there names another. -/
def shared (t : FileTree) (own : FileTree.Place) : Except Int FileTree.Place :=
  match t.content? (own ++ ["commondir"]) with
  | none => .ok own
  | some content =>
    match ((Bytes.trimEnd content).text?).bind (t.resolve? own) with
    | some place => .ok place
    | none => .error Code.notFound

/-- Whether there is a file at the end of names from a directory, links followed. -/
def hasFile (t : FileTree) (folder : FileTree.Place) (name : String) : Bool :=
  ((t.follow false FileTree.linkLimit folder [name]).bind t.content?).isSome

def hasFolder (t : FileTree) (folder : FileTree.Place) (name : String) : Bool :=
  ((t.follow false FileTree.linkLimit folder [name]).map t.isFolder).getD false

/-- Whether a directory is a repository's own: the tip is a file, and objects and references have
directories. -/
def isOwn (t : FileTree) (place : FileTree.Place) : Except Int Bool := do
  let common ← shared t place
  return hasFile t place "HEAD" && hasFolder t common "objects" && hasFolder t common "refs"

/-- What a file starts with that says where a repository is. -/
def pointer : Bytes := Bytes.ofText "gitdir:"

/-- The place that a file points to. -/
def pointed (t : FileTree) (folder : FileTree.Place) (content : Bytes) :
    Except Int FileTree.Place :=
  match pointer.isPrefixOf? (Bytes.trimEnd content) with
  | none | some [] => .error Code.general
  | some rest =>
    match (Bytes.text? (rest.dropWhile Bytes.isBlank)).bind (t.resolve? folder) with
    | some place => .ok place
    | none => .error Code.notFound

/-- What is found at one place: nothing, a repository, or the end of the search. -/
inductive Finding where
  | nothing
  | found (own : FileTree.Place)
  | stop
deriving DecidableEq, Repr

/-- Looks at a file of the name `.git` in a directory. -/
def lookPointer (t : FileTree) (folder : FileTree.Place) (content : Bytes) :
    Except Int Finding := do
  let place ← pointed t folder content
  return if ← isOwn t place then .found place else .stop

/-- Looks at a directory. -/
def lookFolder (t : FileTree) (place : FileTree.Place) : Except Int Finding := do
  return if ← isOwn t place then .found place else .nothing

/-- Looks below the name `.git` in a directory. -/
def lookBelow (t : FileTree) (folder : FileTree.Place) : Except Int Finding :=
  match t.follow false FileTree.linkLimit folder [".git"] with
  | none => .ok .nothing
  | some place =>
    match t.content? place with
    | some content => lookPointer t folder content
    | none => lookFolder t place

/-- Looks at the place itself. -/
def lookHere (t : FileTree) (place : FileTree.Place) : Except Int Finding :=
  match t.content? place with
  | some content =>
    if place.getLast? = some ".git" then lookPointer t place.dropLast content else .ok .nothing
  | none => lookFolder t place

/-- Searches from a place upwards; the names on the way to it are given from the last one on. -/
def search (t : FileTree) : List String → Except Int FileTree.Place
  | [] => .error Code.notFound
  | name :: above => do
    let place := (name :: above).reverse
    match ← lookBelow t place with
    | .found own => return own
    | .stop => throw Code.notFound
    | .nothing =>
      match ← lookHere t place with
      | .found own => return own
      | .stop => throw Code.notFound
      | .nothing => search t above

/-- A directory's path, with a slash at its end. -/
def folderPath (place : FileTree.Place) : String := FileTree.pathOf (place ++ [""])

/-- The settings of a repository. -/
def settings (t : FileTree) (common : FileTree.Place) : Except Int (List Setting) :=
  match t.content? (common ++ ["config"]) with
  | none => .ok []
  | some content =>
    match Settings.ofBytes? content with
    | some settings => .ok settings
    | none => .error Code.general

/-- Whether the settings say that there is no work tree. -/
def isBare (settings : List Setting) : Except Int Bool :=
  match Settings.find settings "core.bare" with
  | none => .ok false
  | some value =>
    match Settings.truth? value with
    | some b => .ok b
    | none => .error Code.general

/-- The work tree: the one that the settings name, or else the directory that the repository's own
lies in. -/
def workTree (t : FileTree) (own : FileTree.Place) (settings : List Setting) :
    Except Int FileTree.Place :=
  match (Settings.find settings "core.worktree").join with
  | none => .ok own.dropLast
  | some path =>
    match t.resolve? own path with
    | some place => .ok place
    | none => .error Code.notFound

/-- The work tree of a linked repository, as the link back to it says. -/
def linkedTree (t : FileTree) (own : FileTree.Place) : Option String := do
  let path ← (Bytes.trimEnd (← t.content? (own ++ ["gitdir"]))).text?
  return folderPath ((FileTree.steps path).dropLast)

/-- A repository that was found: where it is, whether it lacks a work tree, and the linked work
tree that it belongs to, if it does. A linked work tree is one even where the repository that it
is linked to has none of its own. -/
structure Found where
  layout : Layout
  bare : Bool
  linked : Option String

/-- Finds the repository of a place. -/
def find (t : FileTree) (place : FileTree.Place) : Except Int Found := do
  let own ← search t place.reverse
  let common ← shared t own
  let settings ← settings t common
  let linked := if own = common then none else linkedTree t own
  let bare := (← isBare settings) && linked.isNone
  let root ← if bare || linked.isSome then pure own.dropLast else workTree t own settings
  return { layout := ⟨own, common, root⟩, bare, linked }

end Discovery

/-- Opens the repository that a directory belongs to. -/
def openAt (t : FileTree) (cwd : FileTree.Place) (path : String) :
    Except Repository.Failure Layout :=
  let found : Except Int Discovery.Found :=
    match t.resolve? cwd path with
    | some place => Discovery.find t place
    | none => .error Code.notFound
  match found with
  | .error code =>
    if code = Code.notFound then .error (.notFound path)
    else .error (Store.failed "discover repository" code)
  | .ok found =>
    if found.bare then .error (.bare (Discovery.folderPath found.layout.own))
    else
      match found.linked with
      | some path => .error (.detachedWorktree path)
      | none => .ok found.layout

end TagVersion.Git
