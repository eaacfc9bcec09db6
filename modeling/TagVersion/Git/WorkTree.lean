import TagVersion.Git.Ignore
import TagVersion.Git.Index
import TagVersion.Git.References

/-!
The state of a work tree. Three things are compared path by path: the tree of the tip, the index,
and the files. Contents and the right to execute count, times do not. Files that the index does not
know are told by the topmost directory that holds nothing known.
-/

namespace TagVersion.Git

namespace WorkTree

/-- What is compared at a path. -/
structure Item where
  mode : Mode
  id : ObjectId
deriving DecidableEq

/-- The tree that an object leads to, through tags and by way of a commit. -/
def treeFrom (read : ObjectId → Except Int Object) : Nat → ObjectId → Except Int ObjectId
  | 0, _ => .error Code.general
  | bound + 1, id => do
    match ← read id with
    | .tree _ => return id
    | .commit root _ => treeFrom read bound root
    | .tag target _ _ => treeFrom read bound target
    | .blob => throw Code.unpeelable

/-- The files in a tree and below, by their paths, `bound` directories deep. -/
def items (read : ObjectId → Except Int Object) :
    Nat → Bytes → ObjectId → Except Int (List (Bytes × Item))
  | 0, _, _ => .error Code.general
  | bound + 1, above, id => do
    match ← read id with
    | .tree entries =>
      let lists ← entries.mapM fun e =>
        if e.mode = .folder then items read bound (above ++ e.name ++ [47]) e.id
        else pure [(above ++ e.name, (⟨e.mode, e.id⟩ : Item))]
      return lists.flatten
    | _ => throw Code.notFound

/-- The files of the commit at the tip. Where there is no commit, or it or its tree is missing,
there are none. A blob at the tip leads to no tree. -/
def tipItems (s : Store) : Except Int (List (Bytes × Item)) :=
  let root : Except Int (Option ObjectId) := do
    match ← s.tip with
    | none => return none
    | some tip =>
      if (← s.read tip.id) = .blob then throw Code.invalid
      return some (← treeFrom s.read (s.known.length + 1) tip.id)
  match root with
  | .ok (some root) => do
    let _ ← s.readAs .tree root
    items s.read (s.known.length + 1) [] root
  | .ok none => .ok []
  | .error code => if code = Code.notFound then .ok [] else .error code

/-- What a file is to the index. A directory is nothing. -/
def ofNode? : FileTree.Node → Option Item
  | .file content executable =>
    some ⟨if executable then .executable else .regular, (Raw.blob content).id⟩
  | .link target => some ⟨.link, (Raw.blob (Bytes.ofText target)).id⟩
  | .folder => none

/-- The name of the directory that belongs to the repository and not to the work tree. -/
def ownName : String := ".git"

/-- The files and links in a work tree, by the names on the way to them. -/
def files (t : FileTree) (root : FileTree.Place) : List (List String × FileTree.Node) :=
  (t.below root).filter fun (names, node) => node != .folder && !names.contains ownName

/-- What changed between two states of a path; each of the changes named if it is the one. -/
def difference (added deleted modified typeChanged : Change) :
    Option Item → Option Item → List Change
  | none, none => []
  | none, some _ => [added]
  | some _, none => [deleted]
  | some a, some b =>
    if a = b then [] else if a.mode.sameType b.mode then [modified] else [typeChanged]

/-- What the index changes of the tip at a path. -/
def staged : Option Item → Option Item → List Change :=
  difference .indexNew .indexDeleted .indexModified .indexTypeChanged

/-- What a work tree changes of a file in the index. -/
def unstaged : Option Item → Option Item → List Change :=
  difference .treeNew .treeDeleted .treeModified .treeTypeChanged

/-- The lists of rules in a work tree, the deepest first, and at last the repository's own. -/
def ignoreLists (t : FileTree) (layout : Layout) : List Ignore.Rules :=
  let found := (files t layout.workTree).filterMap fun (names, node) =>
    match node with
    | .file content _ =>
      if names.getLast? = some ".gitignore" then
        some (⟨names.dropLast, Ignore.rules content⟩ : Ignore.Rules)
      else none
    | _ => none
  let deepest := found.mergeSort fun a b => b.folder.length ≤ a.folder.length
  let own := (t.content? (layout.shared ++ ["info", "exclude"])).getD []
  deepest ++ [⟨[], Ignore.rules own⟩]

/-- The path that names make up. -/
def pathOf (names : List String) : Bytes := Ignore.joined names

/-- How many names of a path, from the left, lead to the topmost directory that holds nothing
known, or to the file itself. -/
def newAt (known : List Bytes) (above : List String) : List String → Nat
  | [] => 0
  | name :: rest =>
    let here := above ++ [name]
    if known.any ((pathOf here ++ [47]).isPrefixOf ·) then newAt known here rest + 1 else 1

/-- What an unknown file is told by, unless it is ignored there or on the way from there. -/
def untracked? (lists : List Ignore.Rules) (known : List Bytes) (names : List String) :
    Option (List String) :=
  let count := newAt known [] names
  let states := Ignore.states lists false false [] names
  if (states.drop (count - 1)).any id then none else some (names.take count)

/-- The index on disk. -/
def index (t : FileTree) (layout : Layout) : Except Int Index :=
  match t.content? (layout.own ++ ["index"]) with
  | none => .ok {}
  | some file =>
    match Index.decode? file with
    | some index => .ok index
    | none => .error Code.general

/-- The paths that something changed at, with the changes. -/
def entries (t : FileTree) (layout : Layout) (index : Index) (tip : List (Bytes × Item)) :
    List (List Change) :=
  let conflicts := index.conflicts
  let settled : List (Bytes × Item) := index.settled.map fun e => (e.path, ⟨e.mode, e.id⟩)
  let known := settled.map (·.1) ++ conflicts
  let files := files t layout.workTree
  let present : List (Bytes × FileTree.Node) := files.map fun (names, node) => (pathOf names, node)
  let tracked := settled.map fun (path, item) =>
    staged (tip.lookup path) (some item) ++
      unstaged (some item) ((present.lookup path).bind ofNode?)
  let deleted := tip.filterMap fun (path, item) =>
    if known.contains path then none else some (staged (some item) none)
  let lists := ignoreLists t layout
  let unknown := (files.map (·.1)).filter fun names => !known.contains (pathOf names)
  let new := unknown.filterMap (untracked? lists known)
  tracked ++ deleted ++ conflicts.map (fun _ => [.conflicted]) ++
    new.eraseDups.map (fun _ => [.treeNew])

/-- The state of the work tree that belongs to a store. -/
def status (t : FileTree) (layout : Layout) (s : Store) : Except Int Status := do
  let index ← index t layout
  return Status.ofEntries (entries t layout index (← tipItems s))

end WorkTree

end TagVersion.Git
