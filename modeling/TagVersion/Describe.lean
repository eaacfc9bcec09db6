import TagVersion.Description
import TagVersion.Repository.Reading
import TagVersion.Tag

/-!
Describing the tip of a history by the nearest tag. The tags that start with a prefix are the
candidates. The history is walked from the tip along first parents up to the first commit that a
candidate leads to; of several candidates there the best tag is taken. A history that runs out
is described by the hash of its tip.
-/

namespace TagVersion

namespace Describe

/-- The part of the program that these log lines come from. -/
def target : String := "gitversion::describe"

def debug {ε : Type} : Reading ε Unit := Reading.log ⟨.debug, target⟩
def trace {ε : Type} : Reading ε Unit := Reading.log ⟨.trace, target⟩

/-- A tag and the commit it leads to. -/
abbrev Candidate := TagRef × ObjectId

/-- The tags among `tags` that lead to a commit, in order. -/
def peelAll (r : Repository) : List TagRef → Reading Repository.Failure (List Candidate)
  | [] => return []
  | tag :: rest => do
    match ← r.askPeel tag with
    | some commit => return (tag, commit) :: (← peelAll r rest)
    | none => do
      debug
      peelAll r rest

/-- All tags with a prefix that lead to a commit. -/
def candidates (r : Repository) (start : String) : Reading Repository.Failure (List Candidate) := do
  peelAll r (← r.askTags start)

/-- The candidates on one commit. -/
def onCommit (commit : ObjectId) (candidates : List Candidate) : List Candidate :=
  candidates.filter fun (_, peeled) => peeled = commit

/-- A candidate with its time. A tag is annotated if it points at its commit by way of a tag
object, and only then has a time. -/
def toTag (r : Repository) (candidate : Candidate) : Reading Repository.Failure Tag := do
  let (ref, peeled) := candidate
  if ref.target = peeled then
    return { name := ref.name, target := ref.target, peeled, annotated := false, time := none }
  else
    let time ← r.askTagger ref
    return { name := ref.name, target := ref.target, peeled, annotated := true, time }

def toTags (r : Repository) : List Candidate → Reading Repository.Failure (List Tag)
  | [] => return []
  | candidate :: rest => return (← toTag r candidate) :: (← toTags r rest)

/-- The best tag on a commit among the candidates there. -/
def best (r : Repository) (commit : ObjectId) (group : List Candidate) :
    Reading Repository.Failure Tag := do
  let tags ← toTags r group
  if 1 < tags.length then trace
  match Tag.select tags with
  | some tag => return tag
  | none => Reading.fail (.operation s!"select tag on {commit.text}" "no tags on commit" none)

/-- Walks up from a commit, `distance` steps below the tip, to the first commit with a candidate.
The first argument bounds the number of commits still to come. -/
def walk (r : Repository) (candidates : List Candidate) :
    Nat → ObjectId → UInt32 → Reading Repository.Failure (Option Tag × UInt32)
  | 0, _, _ => Reading.fail (.operation "walk history" "first parents never end" none)
  | bound + 1, commit, distance => do
    match onCommit commit candidates with
    | [] =>
      match ← r.askParents commit with
      | [] => do
        debug
        return (none, distance)
      | parent :: _ => do
        trace
        walk r candidates bound parent (distance + 1)
    | group => do
      let tag ← best r commit group
      debug
      return (some tag, distance)

end Describe

namespace Repository

/-- Describes the tip of the history against the tags that start with a text. There is no
description before the first commit. A history without repetition has at most one commit more
than those whose parents can be read. -/
def describe (r : Repository) (start : String) :
    Reading Repository.Failure (Option Description) := do
  match ← r.askHead with
  | none => return none
  | some head =>
    let candidates ← Describe.candidates r start
    Describe.debug
    let (tag, distance) ← Describe.walk r candidates (r.commits.length + 1) head 0
    return some {
      tag := tag.map Tag.name
      distance
      shortHash := head.short Description.shortLength
      head }

end Repository

end TagVersion
