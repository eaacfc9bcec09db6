import TagVersion.Cache
import TagVersion.Resolve

/-!
Resolving the version of a directory. The prefix is checked first, then the repository is opened
and the root of its work tree is brought into its one canonical spelling, under which the result is
kept. A repository is read at most once for a root and a prefix, so what it was at that moment is
what later calls are told.
-/

namespace TagVersion

/-- A repository that was opened, with the path of its work tree. -/
structure Opened where
  workTree : String
  repository : Repository

/-- How directories lead to repositories. -/
structure Surroundings where
  /-- Opens the repository that a directory belongs to. -/
  openAt : String → Except Repository.Failure Opened
  /-- The canonical spelling of a path. -/
  canonical : String → Except Repository.Failure String

/-- Resolves versions and keeps them. -/
structure Resolver where
  cache : Cache Cache.Key Details := .empty

namespace Resolver

/-- The line that opening a repository writes to the log. -/
def openedLine : Log.Line := ⟨.debug, "gitversion::git::interface"⟩

/-- The line that looking into the cache writes, whether it finds anything or not. -/
def lookedLine : Log.Line := ⟨.trace, "gitversion::version::cache"⟩

/-- A reading that adds its lines to a log. -/
def performed {ε α : Type} (reading : Reading ε α) : StateM (List Log.Line) (Except ε α) := do
  modify (· ++ reading.lines)
  return reading.outcome

/-- Resolves the version of a directory; without a prefix all tags are considered. -/
def resolve (r : Resolver) (s : Surroundings) (directory : String) (tagPrefix : Option String) :
    StateM (List Log.Line) (Resolver × Except VersionError Details) := do
  match Prefix.ofText (tagPrefix.getD "") with
  | .error e => return (r, .error e)
  | .ok p =>
    match s.openAt directory with
    | .error e => return (r, .error (.repository e))
    | .ok opened =>
      modify (· ++ [openedLine])
      match s.canonical opened.workTree with
      | .error e => return (r, .error (.repository e))
      | .ok root =>
        modify (· ++ [lookedLine])
        let key : Cache.Key := ⟨Path.parts root, p.text⟩
        let (cache, outcome) ← r.cache.get key (performed (opened.repository.resolve p))
        return (⟨cache⟩, outcome)

end Resolver

end TagVersion
