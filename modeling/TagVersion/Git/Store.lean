import TagVersion.Git.Object
import TagVersion.Repository.Basic
import TagVersion.Status

/-!
What is stored in a Git repository, seen from the questions about versions: objects by their ids,
the tip, and the tags. With the state of the work tree `Store.repository` answers the questions; a
tag leads through tag objects, one by one, to a commit or to something else.
-/

namespace TagVersion.Git

namespace Code

/-! ### The status codes of failures -/

/-- Something is damaged or malformed. -/
def general : Int := -1

/-- Something is not there. -/
def notFound : Int := -3

/-- A name is not allowed, or an object can never lead to one of the kind asked for. -/
def invalid : Int := -12

/-- A tag leads to an object of another kind. -/
def unpeelable : Int := -19

/-- What a code says. -/
def message (code : Int) : String :=
  if code = notFound then "object not found"
  else if code = invalid then "not valid here"
  else if code = unpeelable then "cannot be peeled to the kind asked for"
  else "damaged or malformed"

end Code

/-- What a reference points at. -/
inductive Target where
  | direct (id : ObjectId)
  | symbolic (name : Bytes)
deriving DecidableEq

/-- Where the tip is: the reference that says so in the end, and the object it names. -/
structure Tip where
  name : Bytes
  id : ObjectId
deriving DecidableEq

/-- Failures are told by their codes. -/
structure Store where
  /-- Reads an object. -/
  read : ObjectId → Except Int Object
  /-- The ids of all objects, and perhaps others. -/
  known : List ObjectId
  mem_known : ∀ i o, read i = .ok o → i ∈ known
  /-- The tip; none before the first commit. -/
  tip : Except Int (Option Tip)
  /-- The references in the namespace of tags, each once, by the name within it. -/
  tags : Except Int (List (Bytes × Target))

namespace Store

/-- The failure of an operation with a code. -/
def failed (operation : String) (code : Int) : Repository.Failure :=
  .operation operation (Code.message code) (some code)

/-- Ids of objects have forty digits here. -/
def checkId (id : ObjectId) : Except Repository.Failure Unit :=
  if id.text.utf8ByteSize = 40 then .ok () else .error (failed "parse object id" Code.general)

/-- Reads an object by itself. -/
def readObject (s : Store) (id : ObjectId) : Except Repository.Failure Object := do
  checkId id
  (s.read id).mapError (failed s!"read object {id.text}")

/-- Reads an object that must be of a kind; one of another kind counts as missing. -/
def readAs (s : Store) (kind : Kind) (id : ObjectId) : Except Int Object := do
  let object ← s.read id
  if object.kind = kind then return object else throw Code.notFound

/-- The commit that an object leads to through at most `bound` tag objects. -/
def lead (s : Store) : Nat → ObjectId → Object → Except Int (Option ObjectId)
  | _, id, .commit _ _ => .ok (some id)
  | bound + 1, _, .tag target kind _ => do
    let object ← s.readAs kind target
    lead s bound target object
  | 0, _, .tag _ _ _ => .error Code.general
  | _, _, .tree _ => .ok none
  | _, _, .blob => .ok none

/-- No chain of tag objects is longer than there are objects. -/
def bound (s : Store) : Nat := s.known.length + 1

/-- The commit that a tag leads to. -/
def peel (s : Store) (tag : TagRef) : Except Repository.Failure (Option ObjectId) := do
  let object ← s.readObject tag.target
  (s.lead s.bound tag.target object).mapError (failed s!"peel tag {tag.name}")

/-- When the tag object was made that a tag points at, if it points at one. -/
def tagger (s : Store) (tag : TagRef) : Except Repository.Failure (Option Instant) := do
  match ← s.readObject tag.target with
  | .tag _ _ seconds => return seconds.bind Instant.ofSeconds?
  | _ => return none

def parents (s : Store) (id : ObjectId) : Except Repository.Failure (List ObjectId) := do
  checkId id
  match s.readAs .commit id with
  | .ok (.commit _ parents) => return parents
  | .ok _ => throw (failed s!"read commit {id.text}" Code.notFound)
  | .error code => throw (failed s!"read commit {id.text}" code)

/-- The commit at the tip. A tree or a blob never leads to one. -/
def tipCommit (s : Store) (id : ObjectId) : Except Int ObjectId := do
  let object ← s.read id
  match object with
  | .commit _ _ => return id
  | .tag _ _ _ =>
    match ← s.lead s.bound id object with
    | some commit => return commit
    | none => throw Code.unpeelable
  | _ => throw Code.invalid

/-- The operation of finding the tip, as failures name it. -/
def tipOperation : String := "resolve HEAD"

def head (s : Store) : Except Repository.Failure (Option ObjectId) :=
  Except.mapError (failed tipOperation) do
    match ← s.tip with
    | none => return none
    | some tip => return some (← s.tipCommit tip.id)

/-- The namespace of branches. -/
def branches : Bytes := Bytes.ofText "refs/heads/"

/-- The branch that the tip is on, if its name is a text. -/
def branch (s : Store) : Except Repository.Failure String :=
  Except.mapError (failed tipOperation) do
    match ← s.tip with
    | none => return ""
    | some tip => return ((branches.isPrefixOf? tip.name).bind Bytes.text?).getD ""

/-- The tags with a text for a name that starts with another. -/
def named (start : String) (tags : List (Bytes × Target)) : List (String × Target) :=
  tags.filterMap fun (name, target) => do
    let name ← name.text?
    if start.toList.isPrefixOf name.toList then some (name, target) else none

/-- The tags that point at an object directly, in the order of their names. -/
def tagRefs (start : String) (tags : List (Bytes × Target)) : List TagRef :=
  let refs := (named start tags).filterMap fun (name, target) =>
    match target with
    | .direct id => some (⟨name, id⟩ : TagRef)
    | .symbolic _ => none
  refs.mergeSort fun a b => compare a.name b.name != .gt

def list (s : Store) (start : String) : Except Repository.Failure (List TagRef) :=
  (s.tags.map (tagRefs start)).mapError (failed "list tags")

/-- The part of the program that these log lines come from. -/
def logTarget : String := "gitversion::git::interface"

/-- The log lines of a question: one for each tag that is passed over because it points at another
reference, one for a tip without a commit, one for the state of the work tree. -/
def lines (s : Store) (status : Except Int Status) : Query → List Log.Line
  | .head =>
    match s.tip with
    | .ok none => [⟨.debug, logTarget⟩]
    | _ => []
  | .tags start =>
    match s.tags with
    | .ok tags =>
      (named start tags).filterMap fun (_, target) =>
        match target with
        | .direct _ => none
        | .symbolic _ => some ⟨.trace, logTarget⟩
    | .error _ => []
  | .clean =>
    match status with
    | .ok _ => [⟨.trace, logTarget⟩]
    | .error _ => []
  | _ => []

theorem mem_known_of_parents {s : Store} {id : ObjectId} {ps : List ObjectId}
    (h : s.parents id = .ok ps) : id ∈ s.known := by
  unfold parents at h
  cases hc : checkId id with
  | error e => simp [hc, bind, Except.bind] at h
  | ok u =>
    cases hr : s.readAs .commit id with
    | error e => simp [hc, hr, bind, Except.bind, throw, throwThe, MonadExceptOf.throw] at h
    | ok o =>
      unfold readAs at hr
      cases hf : s.read id with
      | error e => simp [hf, bind, Except.bind] at hr
      | ok o' => exact s.mem_known id o' hf

/-- The answers of a store, together with the state of its work tree. -/
def repository (s : Store) (status : Except Int Status) : Repository where
  head := s.head
  tags := s.list
  peel := s.peel
  parents := s.parents
  tagger := s.tagger
  clean := (status.map Status.isClean).mapError (failed "status")
  branch := s.branch
  lines := s.lines status
  commits := s.known
  mem_commits _ _ := mem_known_of_parents

end Store

end TagVersion.Git
