import TagVersion.Describe
import TagVersion.Details

/-!
Resolving the version of a repository: its tip is described, then the state of the work tree and
the branch are read, each once.
-/

namespace TagVersion

namespace Repository

/-- The details of a repository's version. Before the first commit there is nothing to compare
the work tree with, and it is not asked for. -/
def resolve (r : Repository) (p : Prefix) : Reading VersionError Details := do
  let description ← (r.describe p.text).mapError .repository
  let isClean ←
    match description with
    | some _ => r.askClean.mapError .repository
    | none => pure false
  let branch ← r.askBranch.mapError .repository
  let details ← Reading.ofExcept (Details.ofDescription p description isClean branch)
  Reading.log ⟨.debug, "gitversion::version"⟩
  return details

end Repository

end TagVersion
