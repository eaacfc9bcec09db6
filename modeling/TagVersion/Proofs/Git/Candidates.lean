import TagVersion.Proofs.Describe.Candidates
import TagVersion.Proofs.Git.Following

/-!
The candidates of a Git repository, told by what is stored: which references are tags with a prefix,
and where following them ends. They come in the order of their names, each once, on the commit
where it ends; and a tag below which something is missing fails the whole.
-/

namespace TagVersion.Git.Store

open Describe Instant Outcome

variable {s : Store} {status : Except Int Status} {refs : List (Bytes × Target)} {start : String}
  {ref : TagRef} {candidates : List Candidate} {c last : ObjectId} {object : Object}
  {e : Repository.Failure}

/-! ### Which references are listed -/

/-- The references in the namespace of tags can be enumerated, each once, and no chain of tag
objects leads back to where it started. -/
structure Orderly (s : Store) (refs : List (Bytes × Target)) : Prop where
  tags : s.tags = .ok refs
  once : (refs.map Prod.fst).Nodup
  acyclic : s.Acyclic

lemma Orderly.list (h : s.Orderly refs) (status : Except Int Status) (start : String) :
    (s.repository status).tags start = .ok (tagRefs start refs) := by
  show s.list start = _
  rw [Store.list, h.tags]
  rfl

namespace Mixed

def commit : ObjectId := ⟨"c100000000000000000000000000000000000000", by decide⟩

def tree : ObjectId := ⟨"7100000000000000000000000000000000000000", by decide⟩

/-- A tag object on the commit. -/
def inner : ObjectId := ⟨"1a00000000000000000000000000000000000000", by decide⟩

/-- A tag object on the tag object on the commit. -/
def outer : ObjectId := ⟨"1b00000000000000000000000000000000000000", by decide⟩

/-- A tag object on the tree. -/
def other : ObjectId := ⟨"1c00000000000000000000000000000000000000", by decide⟩

/-- References to objects of each kind, one to another reference, and one without a text for a
name. -/
def references : List (Bytes × Target) :=
  [(Bytes.ofText "nested", .direct outer), (Bytes.ofText "plain", .direct commit),
    (Bytes.ofText "tree", .direct other), (Bytes.ofText "link", .symbolic (Bytes.ofText "plain")),
    ([255], .direct inner)]

def store : Store where
  read id :=
    if id = commit then .ok (.commit tree [])
    else if id = tree then .ok (.tree [])
    else if id = inner then .ok (.tag commit .commit (some 5))
    else if id = outer then .ok (.tag inner .tag (some 3))
    else if id = other then .ok (.tag tree .tree none)
    else .error Code.notFound
  known := [commit, tree, inner, outer, other]
  mem_known i o h := by
    split_ifs at h <;> simp [*]
  tip := .ok (some ⟨branches ++ Bytes.ofText "main", commit⟩)
  tags := .ok references

end Mixed

end TagVersion.Git.Store
