import TagVersion.Cache
import TagVersion.Resolve

/-!
Histories in memory: commits, tags and a tip that are put together step by step, as an example of
a repository whose every fact is known. Ids are made from a counter. Any kind of question can be
made to fail, and the questions asked so far are counted.
-/

namespace TagVersion

structure History where
  /-- The commits with their parents, newest first. -/
  commits : List (ObjectId × List ObjectId) := []
  /-- The tags by name, in the order of their names. -/
  tags : List (String × ObjectId) := []
  /-- The tag objects, each with the commit it sits on and the time it was made. -/
  tagObjects : List (ObjectId × ObjectId × Option Instant) := []
  head : Option ObjectId := none
  branch : String := "main"
  clean : Bool := true
  /-- How many ids have been made. -/
  made : Nat := 0
  /-- The kinds of questions that fail, with the status code of the failure. -/
  failures : List (Query.Kind × Int) := []
  /-- How many questions have been asked. -/
  calls : Nat := 0
deriving DecidableEq

namespace History

/-! ### Ids -/

/-- An odd number of 128 bits; the multiples of it differ early in their digits. -/
def stride : Nat := 0x9e3779b97f4a7c15f39cc0605cedc835

/-- The digits of the id with a number: a multiple of the stride that tells the number apart at
sight, then the number itself. -/
def idDigits (number : Nat) : List Char :=
  Hex.numeral 32 (number * stride % Nat.pow 2 128) ++ Hex.numeral 8 number

/-- The id with a number. Numbers stay below 2^32. -/
def idOf (number : Nat) : ObjectId :=
  ObjectId.ofDigits (idDigits number) (by simp [idDigits]) (by
    rw [idDigits, List.all_append, ObjectId.all_isLowerDigit_numeral,
      ObjectId.all_isLowerDigit_numeral]
    rfl)

/-! ### Building -/

/-- A step of building. -/
inductive Step where
  /-- Makes a commit and leaves the tip where it is. -/
  | commit (parents : List ObjectId)
  /-- Makes a commit on the tip and moves the tip to it. -/
  | commitHead
  /-- Makes a commit on the tip with a second parent and moves the tip to it. -/
  | mergeHead (other : ObjectId)
  /-- Moves the tip and keeps the branch. -/
  | setHead (commit : ObjectId)
  /-- Moves the tip and leaves the branch. -/
  | checkout (commit : ObjectId)
  | setBranch (name : String)
  | setClean (clean : Bool)
  /-- Makes a tag that points at a commit. -/
  | lightweight (name : String) (commit : ObjectId)
  /-- Makes a tag that points at a tag object on a commit. -/
  | annotated (name : String) (commit : ObjectId) (time : Option Instant)
  /-- Makes a tag that leads to no commit. -/
  | nonCommit (name : String)
  /-- Makes a kind of questions fail from now on. -/
  | failOn (kind : Query.Kind) (code : Int)
deriving DecidableEq

/-- Puts a value under a name into a list in the order of names. -/
def insertNamed {α : Type} (name : String) (value : α) : List (String × α) → List (String × α)
  | [] => [(name, value)]
  | (other, old) :: rest =>
    match compare name other with
    | .lt => (name, value) :: (other, old) :: rest
    | .eq => (name, value) :: rest
    | .gt => (other, old) :: insertNamed name value rest

/-- The id that the next step makes, if it makes one. -/
def fresh (h : History) : ObjectId := idOf (h.made + 1)

/-- Makes a commit with the next id. -/
def addCommit (h : History) (parents : List ObjectId) : History :=
  { h with commits := (h.fresh, parents) :: h.commits, made := h.made + 1 }

def tag (h : History) (name : String) (target : ObjectId) : History :=
  { h with tags := insertNamed name target h.tags }

def apply (h : History) : Step → History
  | .commit parents => h.addCommit parents
  | .commitHead => { h.addCommit h.head.toList with head := some h.fresh }
  | .mergeHead other => { h.addCommit (h.head.toList ++ [other]) with head := some h.fresh }
  | .setHead commit => { h with head := some commit }
  | .checkout commit => { h with head := some commit, branch := "" }
  | .setBranch name => { h with branch := name }
  | .setClean clean => { h with clean }
  | .lightweight name commit => h.tag name commit
  | .annotated name commit time =>
    { h with tagObjects := (h.fresh, commit, time) :: h.tagObjects, made := h.made + 1 }.tag
      name h.fresh
  | .nonCommit name => { h with made := h.made + 1 }.tag name h.fresh
  | .failOn kind code => { h with failures := (kind, code) :: h.failures }

/-- The history after some steps. -/
def build (h : History) (steps : List Step) : History := steps.foldl apply h

/-! ### Asking -/

/-- The operations that questions perform, as failures name them. -/
def operation : Query.Kind → String
  | .branch => "current branch"
  | .head => "resolve HEAD"
  | .clean => "status"
  | .tags => "list tags"
  | .peel => "peel tag"
  | .parents => "read commit"
  | .tagger => "read tag"

/-- The answer to a question, unless questions of its kind fail. -/
def answer {α : Type} (h : History) (kind : Query.Kind) (a : Except Repository.Failure α) :
    Except Repository.Failure α :=
  match h.failures.lookup kind with
  | some code => .error (.operation (operation kind) "injected failure" (some code))
  | none => a

/-- The commit that an object leads to: itself, or the one its tag object sits on. -/
def peel (h : History) (target : ObjectId) : Option ObjectId :=
  match h.commits.lookup target with
  | some _ => some target
  | none => (h.tagObjects.lookup target).map (·.1)

def parents (h : History) (commit : ObjectId) : Except Repository.Failure (List ObjectId) :=
  match h.commits.lookup commit with
  | some parents => .ok parents
  | none =>
    .error (.operation (operation .parents) s!"commit {commit.text} not found" (some (-3)))

theorem mem_of_lookup {α β : Type} [BEq α] [LawfulBEq α] {l : List (α × β)} {a : α} {b : β}
    (h : l.lookup a = some b) : (a, b) ∈ l := by
  induction l with
  | nil => simp at h
  | cons p l ih =>
    obtain ⟨x, y⟩ := p
    rw [List.lookup_cons] at h
    split at h
    · next hx =>
      have : a = x := by simpa using hx
      simp_all
    · exact .tail _ (ih h)

/-- The answers of a history. -/
def repository (h : History) : Repository where
  head := h.answer .head (.ok h.head)
  tags start :=
    let named := h.tags.filter fun (name, _) => start.toList.isPrefixOf name.toList
    h.answer .tags (.ok (named.map fun (name, target) => ⟨name, target⟩))
  peel tag := h.answer .peel (.ok (h.peel tag.target))
  parents commit := h.answer .parents (h.parents commit)
  tagger tag := h.answer .tagger (.ok ((h.tagObjects.lookup tag.target).bind (·.2)))
  clean := h.answer .clean (.ok h.clean)
  branch := h.answer .branch (.ok (if h.head.isNone then "" else h.branch))
  lines _ := []
  commits := h.commits.map (·.1)
  mem_commits c ps ok := by
    simp only [answer, parents] at ok
    split at ok
    · simp at ok
    · split at ok
      · next found => exact List.mem_map.2 ⟨_, mem_of_lookup found, rfl⟩
      · simp at ok

/-- Performs a reading; every question in it counts. -/
def read {ε α : Type} (h : History) (reading : Reading ε α) : Except ε α × History :=
  (reading.outcome, { h with calls := h.calls + reading.asked.length })

/-- Resolves the version, by way of a cache. -/
def resolveCached (h : History) (cache : Cache Cache.Key Details) (root : String) (p : Prefix) :
    (Cache Cache.Key Details × Except VersionError Details) × History :=
  let key : Cache.Key := ⟨Path.parts root, p.text⟩
  let compute : StateM History (Except VersionError Details) :=
    fun h => h.read (h.repository.resolve p)
  (cache.get key compute).run h

end History

end TagVersion
