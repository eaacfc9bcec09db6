import TagVersion.Git.Discovery
import TagVersion.Git.WorkTree
import TagVersion.Git.Zlib

/-!
A Git repository as it lies in a tree of files. Objects are files below a directory of their own,
named by their ids and compressed; with the references and the work tree they make up the answers
to the questions about versions.
-/

namespace TagVersion.Git

namespace Disk

/-- The directory of objects. -/
def objectFolder (layout : Layout) : FileTree.Place := layout.shared ++ ["objects"]

/-- The objects that are stored, each by its id and compressed. -/
def stored (t : FileTree) (layout : Layout) : List (ObjectId × Bytes) :=
  (t.below (objectFolder layout)).filterMap fun (names, node) =>
    match names, node with
    | [first, rest], .file content _ => do
      return (← (ObjectId.ofText (first ++ rest)).toOption, content)
    | _, _ => none

/-- The object that is stored in a file. -/
def unpack? (content : Bytes) : Option Raw := (Zlib.decode? content).bind Raw.ofFramed?

/-- Reads an object. -/
def read (stored : List (ObjectId × Bytes)) (id : ObjectId) : Except Int Object :=
  match stored.lookup id with
  | none => .error Code.notFound
  | some content =>
    match (unpack? content).bind Object.ofRaw? with
    | some object => .ok object
    | none => .error Code.general

theorem mem_of_read {stored : List (ObjectId × Bytes)} {id : ObjectId} {o : Object}
    (h : read stored id = .ok o) : id ∈ stored.map (·.1) := by
  unfold read at h
  split at h
  · simp at h
  · next found =>
    clear h
    induction stored with
    | nil => simp at found
    | cons entry rest ih =>
      obtain ⟨i, content⟩ := entry
      rw [List.lookup_cons] at found
      split at found
      · next same => simp_all
      · simp only [List.map_cons, List.mem_cons]
        exact .inr (ih found)

/-- The objects and the references. -/
def store (t : FileTree) (layout : Layout) : Store :=
  let stored := stored t layout
  { read := read stored
    known := stored.map (·.1)
    mem_known := fun _ _ => mem_of_read
    tip := References.tip t layout
    tags := References.tags t layout }

/-- The answers. -/
def repository (t : FileTree) (layout : Layout) : Repository :=
  let s := store t layout
  s.repository (WorkTree.status t layout s)

end Disk

end TagVersion.Git
