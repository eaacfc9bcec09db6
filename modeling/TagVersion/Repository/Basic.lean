import TagVersion.Instant
import TagVersion.Log.Level
import TagVersion.ObjectId
import TagVersion.Repository.Failure

/-!
A repository as the questions it answers: the tip of the history, the tags, what they sit on, the
parents of a commit. Everything about versions is computed from these seven questions, so a
repository may be a directory on disk or a history in memory.
-/

namespace TagVersion

/-- A tag as it is stored: its name, and the object it points at directly. -/
structure TagRef where
  name : String
  target : ObjectId
deriving DecidableEq

/-- A question to a repository. -/
inductive Query where
  | head
  | tags (start : String)
  | peel (tag : TagRef)
  | parents (commit : ObjectId)
  | tagger (tag : TagRef)
  | clean
  | branch
deriving DecidableEq

namespace Query

/-- A question without what it is about. -/
inductive Kind where
  | head
  | tags
  | peel
  | parents
  | tagger
  | clean
  | branch
deriving DecidableEq, Repr

def kind : Query → Kind
  | .head => .head
  | .tags _ => .tags
  | .peel _ => .peel
  | .parents _ => .parents
  | .tagger _ => .tagger
  | .clean => .clean
  | .branch => .branch

end Query

/-- The answers of a repository. -/
structure Repository where
  /-- The commit at the tip of the history; none before the first commit. -/
  head : Except Repository.Failure (Option ObjectId)
  /-- The tags whose name starts with a text, in the order of their names. -/
  tags : String → Except Repository.Failure (List TagRef)
  /-- The commit that a tag leads to; none if it leads to another object. -/
  peel : TagRef → Except Repository.Failure (Option ObjectId)
  /-- The parents of a commit, first parent first. -/
  parents : ObjectId → Except Repository.Failure (List ObjectId)
  /-- When an annotated tag was made; none for other tags and where it does not say. -/
  tagger : TagRef → Except Repository.Failure (Option Instant)
  /-- Whether the work tree has no changes. -/
  clean : Except Repository.Failure Bool
  /-- The branch checked out; empty if none is, and before the first commit. -/
  branch : Except Repository.Failure String
  /-- What the repository itself writes to the log while it answers. -/
  lines : Query → List Log.Line
  /-- All commits whose parents can be read. There are finitely many. -/
  commits : List ObjectId
  mem_commits : ∀ c ps, parents c = .ok ps → c ∈ commits

end TagVersion
