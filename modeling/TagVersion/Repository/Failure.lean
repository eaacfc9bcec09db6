import TagVersion.ObjectId

/-!
Why a repository cannot be opened or read.
-/

namespace TagVersion.Repository

inductive Failure where
  /-- Neither the directory nor one above it belongs to a repository. -/
  | notFound (path : String)
  /-- The directory is a linked work tree, whose repository lies elsewhere. -/
  | detachedWorktree (path : String)
  /-- The repository has no work tree. -/
  | bare (path : String)
  /-- An operation failed, with a status code where there is one. -/
  | operation (name : String) (message : String) (code : Option Int)
deriving DecidableEq, Repr

namespace Failure

def message : Failure → String
  | .notFound path => s!"not a git repository (or any of the parent directories): {path}"
  | .detachedWorktree path =>
    s!"Cannot find git repository at {path}. Detached work trees are unsupported."
  | .bare path => s!"bare repository not supported: {path}"
  | .operation name message _ => s!"git {name} failed: {message}"

/-- A text that should be an object id and is none, met while reading a repository. -/
def ofMalformed (why : ObjectId.Malformed) : Failure :=
  .operation "parse object id" why.message none

def code : Failure → Option Int
  | .operation _ _ code => code
  | _ => none

end Failure

end TagVersion.Repository
