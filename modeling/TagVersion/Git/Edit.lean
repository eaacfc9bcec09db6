import TagVersion.Git.Disk

/-!
Building Git repositories in a tree of files: what the commands of a version control system do to
objects, references, the index and the work tree.
-/

namespace TagVersion.Git

namespace Edit

/-- Settings of a new repository. -/
def initialSettings (bare : Bool) : String :=
  s!"[core]\n\trepositoryformatversion = 0\n\tfilemode = true\n\tbare = {bare}\n" ++
    if bare then "" else "\tlogallrefupdates = true\n"

/-- Makes a repository whose tip is on a branch without commits. -/
def init (t : FileTree) (place : FileTree.Place) (bare : Bool) (branch : String) : FileTree :=
  let own := if bare then place else place ++ [".git"]
  let folders := [["objects", "info"], ["objects", "pack"], ["refs", "heads"], ["refs", "tags"]]
  let t := folders.foldl (fun t names => t.makeFolder (own ++ names)) t
  let t := t.write (own ++ ["HEAD"]) (Bytes.ofText s!"ref: refs/heads/{branch}\n")
  t.write (own ++ ["config"]) (Bytes.ofText (initialSettings bare))

/-- Stores an object. -/
def addObject (t : FileTree) (layout : Layout) (object : Raw) : FileTree × ObjectId :=
  let digits := object.id.text.toList
  let names := [String.ofList (digits.take 2), String.ofList (digits.drop 2)]
  let place := Disk.objectFolder layout ++ names
  match t.node? place with
  | some _ => (t, object.id)
  | none => (t.write place (Zlib.encode object.framed), object.id)

/-! ### References -/

/-- Where the file of a reference lies. -/
def refPlace (layout : Layout) (name : String) : FileTree.Place :=
  (if name = "HEAD" then layout.own else layout.shared) ++ Path.segments name

/-- Makes a reference name an object. -/
def setRef (t : FileTree) (layout : Layout) (name : String) (id : ObjectId) : FileTree :=
  t.write (refPlace layout name) (Bytes.ofText s!"{id.text}\n")

/-- Makes a reference name another reference. -/
def setSymbolic (t : FileTree) (layout : Layout) (name target : String) :
    FileTree :=
  t.write (refPlace layout name) (Bytes.ofText s!"ref: {target}\n")

/-- Takes a reference out of the lines of packed references, with what stands below it. -/
def withoutLine (name : Bytes) : List Bytes → List Bytes
  | [] => []
  | line :: rest =>
    if line.drop 41 = name && line.head? != some 35 then rest.dropWhile (·.head? = some 94)
    else line :: withoutLine name rest

/-- Takes a reference away. -/
def deleteRef (t : FileTree) (layout : Layout) (name : String) : FileTree :=
  let t := t.remove (refPlace layout name)
  let packed := layout.shared ++ ["packed-refs"]
  match t.content? packed with
  | none => t
  | some content =>
    t.write packed (List.intercalate [10] (withoutLine (Bytes.ofText name) (content.splitOn 10)))

/-- The reference that moves when a commit is made: the last one from the tip on. -/
def movingRef (t : FileTree) (layout : Layout) : Nat → String → String
  | 0, name => name
  | bound + 1, name =>
    match References.find t layout (Bytes.ofText name) with
    | .ok (.symbolic next) => movingRef t layout bound (next.text?.getD name)
    | _ => name

/-- The commit at the tip, if there is one. -/
def tipCommit? (t : FileTree) (layout : Layout) : Option ObjectId :=
  (Disk.store t layout).head.toOption.join

/-- Makes the tip a commit and no branch. -/
def detach (t : FileTree) (layout : Layout) (id : ObjectId) : FileTree :=
  setRef t layout "HEAD" (((Disk.store t layout).tipCommit id).toOption.getD id)

/-! ### The index -/

def readIndex (t : FileTree) (layout : Layout) : Index :=
  (WorkTree.index t layout).toOption.getD {}

def writeIndex (t : FileTree) (layout : Layout) (index : Index) : FileTree :=
  t.write (layout.own ++ ["index"]) index.encode

/-- Whether one path is a directory on the way to the other. -/
def collide (a b : Bytes) : Bool := (a ++ [47]).isPrefixOf b || (b ++ [47]).isPrefixOf a

/-- The content of a file as an object stores it. -/
def contentOf? : FileTree.Node → Option Bytes
  | .file content _ => some content
  | .link target => some (Bytes.ofText target)
  | .folder => none

/-- Puts a file of the work tree into the index as it is now. -/
def add (t : FileTree) (layout : Layout) (path : String) : FileTree :=
  let names := Path.segments path
  match t.node? (layout.workTree ++ names) with
  | none => t
  | some node =>
    match contentOf? node, WorkTree.ofNode? node with
    | some content, some item =>
      let (t, id) := addObject t layout (.blob content)
      let path := WorkTree.pathOf names
      let index := readIndex t layout
      let index : Index := ⟨index.entries.filter fun e => !collide e.path path⟩
      writeIndex t layout (index.put path [⟨path, 0, item.mode, id, content.length⟩])
    | _, _ => t

/-- Takes a file out of the index. -/
def unstage (t : FileTree) (layout : Layout) (path : String) : FileTree :=
  writeIndex t layout ((readIndex t layout).erase (WorkTree.pathOf (Path.segments path)))

/-- Leaves a path in conflict between three sides. -/
def conflict (t : FileTree) (layout : Layout) (path : String) : FileTree :=
  let path := WorkTree.pathOf (Path.segments path)
  let (t, entries) := [1, 2, 3].foldl (fun (t, entries) stage =>
    let content := Bytes.ofText s!"side {stage}\n"
    let (t, id) := addObject t layout (.blob content)
    (t, entries ++ [(⟨path, stage, .regular, id, 0⟩ : Index.Entry)])) (t, [])
  writeIndex t layout ((readIndex t layout).put path entries)

/-! ### Commits and tags -/

/-- A file that goes into a tree: the names on the way to it, and what it is. -/
abbrev Leaf := List Bytes × WorkTree.Item

/-- The name that an entry is sorted by: that of a directory ends in a slash. -/
def sortName (e : TreeEntry) : Bytes := if e.mode = .folder then e.name ++ [47] else e.name

/-- Stores the tree of some files, `bound` directories deep, and the trees below it. -/
def addTree (layout : Layout) : Nat → FileTree → List Leaf → FileTree × ObjectId
  | 0, t, _ => addObject t layout (.tree [])
  | bound + 1, t, leaves =>
    let here : List TreeEntry := leaves.filterMap fun (names, item) =>
      match names with
      | [name] => some ⟨item.mode, name, item.id⟩
      | _ => none
    let folders := (leaves.filterMap fun (names, _) =>
      match names with
      | name :: _ :: _ => some name
      | _ => none).eraseDups
    let (t, entries) := folders.foldl (fun (t, entries) folder =>
      let below := leaves.filterMap fun (names, item) =>
        match names with
        | name :: rest => if name = folder && !rest.isEmpty then some (rest, item) else none
        | [] => none
      let (t, id) := addTree layout bound t below
      (t, (⟨.folder, folder, id⟩ : TreeEntry) :: entries)) (t, here)
    addObject t layout (.tree (entries.mergeSort fun a b => sortName a ≤ sortName b))

/-- Stores the tree of the index. -/
def addIndexTree (t : FileTree) (layout : Layout) : FileTree × ObjectId :=
  let leaves : List Leaf := (readIndex t layout).settled.map fun e =>
    (e.path.splitOn 47, ⟨e.mode, e.id⟩)
  let depth := (leaves.map fun (names, _) => names.length).foldl max 0
  addTree layout (depth + 1) t leaves

/-- What a new commit is to be like. -/
structure CommitSpec where
  /-- The parents, if they are not just the tip. -/
  parents : Option (List ObjectId) := none
  message : String := "m\n"
  seconds : Int := 1700000000
  /-- Whether the tip stays where it is. -/
  stay : Bool := false

/-- Stores a commit of the index and moves the tip to it. -/
def commit (t : FileTree) (layout : Layout) (spec : CommitSpec) : FileTree × ObjectId :=
  let parents := spec.parents.getD (tipCommit? t layout).toList
  let (t, root) := addIndexTree t layout
  let (t, id) := addObject t layout (.commit root parents spec.message spec.seconds)
  if spec.stay then (t, id)
  else (setRef t layout (movingRef t layout References.depth "HEAD") id, id)

/-- Stores the same commit again and again, a second later each time. -/
def commits (t : FileTree) (layout : Layout) (spec : CommitSpec) : Nat → FileTree × ObjectId
  | 0 => commit t layout spec
  | count + 1 =>
    let (t, _) := commit t layout spec
    commits t layout { spec with seconds := spec.seconds + 1 } count

/-- The tree of a commit. -/
def treeOf? (t : FileTree) (layout : Layout) (id : ObjectId) : Option ObjectId :=
  match (Disk.store t layout).read id with
  | .ok (.commit root _) => some root
  | _ => none

/-- Stores a tag object. It says that its target is of the target's kind, unless told otherwise. -/
def tag (t : FileTree) (layout : Layout) (name : String) (target : ObjectId)
    (kind : Option String) (seconds : Option Int) : FileTree × ObjectId :=
  let real :=
    match (Disk.store t layout).read target with
    | .ok object => object.kind.name
    | .error _ => Kind.commit.name
  addObject t layout (.tag name target (kind.getD real) seconds)

/-! ### Linked work trees -/

/-- The body of a stored object. -/
def body? (t : FileTree) (layout : Layout) (id : ObjectId) : Option Bytes := do
  return (← Disk.unpack? (← (Disk.stored t layout).lookup id)).body

/-- Writes a file as a tree of the repository has it. -/
def checkOut (t : FileTree) (root : FileTree.Place) (path : Bytes) (mode : Mode) (content : Bytes) :
    FileTree :=
  match path.text? with
  | none => t
  | some path =>
    let place := root ++ Path.segments path
    if mode = .link then t.symlink place (content.text?.getD "")
    else (t.write place content).setExecutable place (mode = .executable)

/-- Makes a linked work tree at a place, with a branch of its own at the tip. -/
def link (t : FileTree) (layout : Layout) (name : String) (place : FileTree.Place) : FileTree :=
  match tipCommit? t layout with
  | none => t
  | some tip =>
    let s := Disk.store t layout
    let branch := s!"refs/heads/{name}"
    let own := layout.shared ++ ["worktrees", name]
    let line (path : FileTree.Place) (names : List String) :=
      Bytes.ofText (FileTree.pathOf (path ++ names) ++ "\n")
    let t := setRef t layout branch tip
    let t := t.write (own ++ ["HEAD"]) (Bytes.ofText s!"ref: {branch}\n")
    let t := t.write (own ++ ["commondir"]) (line layout.shared [])
    let t := t.write (own ++ ["gitdir"]) (line place [".git"])
    let t := t.write (place ++ [".git"]) (Discovery.pointer ++ 32 :: line own [])
    let items := (WorkTree.tipItems s).toOption.getD []
    let t := items.foldl (fun t (path, item) =>
      checkOut t place path item.mode ((body? t layout item.id).getD [])) t
    let entries := items.map fun (path, item) =>
      (⟨path, 0, item.mode, item.id, 0⟩ : Index.Entry)
    writeIndex t { layout with own } ⟨entries.mergeSort Index.Entry.precedes⟩

end Edit

end TagVersion.Git
