/-!
The state of a work tree in summary. A path whose content differs somewhere gives an entry with
the changes that it shows; the summary counts entries by the kind of change.
-/

namespace TagVersion

/-- Where the changes of a path show: between the tip and the index, or between the index and the
work tree; or in the index alone, if a merge left it in conflict. Of two marks an entry may carry
besides no change can be told: that the path cannot be read, and that it is ignored. -/
inductive Change where
  | indexNew
  | indexModified
  | indexDeleted
  | indexRenamed
  | indexTypeChanged
  | treeNew
  | treeModified
  | treeDeleted
  | treeRenamed
  | treeTypeChanged
  | treeUnreadable
  | ignored
  | conflicted
deriving DecidableEq, Repr

namespace Change

/-- The changes that the next commit takes up. -/
def isStaged : Change → Bool
  | .indexNew | .indexModified | .indexDeleted | .indexRenamed | .indexTypeChanged => true
  | _ => false

/-- The changes of tracked files that are not in the index. -/
def isUnstaged : Change → Bool
  | .treeModified | .treeDeleted | .treeRenamed | .treeTypeChanged => true
  | _ => false

end Change

/-- What the work tree's entries sum up to. -/
structure Status where
  staged : Nat := 0
  unstaged : Nat := 0
  untracked : Nat := 0
  conflicts : Bool := false
deriving DecidableEq, Repr

namespace Status

/-- Whether nothing has changed. -/
def isClean (s : Status) : Bool :=
  s.staged == 0 && s.unstaged == 0 && s.untracked == 0 && !s.conflicts

/-- Counts an entry in each category that one of its changes belongs to. -/
def add (s : Status) (entry : List Change) : Status where
  staged := s.staged + (entry.any Change.isStaged).toNat
  unstaged := s.unstaged + (entry.any Change.isUnstaged).toNat
  untracked := s.untracked + (entry.contains .treeNew).toNat
  conflicts := s.conflicts || entry.contains .conflicted

/-- The summary of some entries, each with its changes. -/
def ofEntries (entries : List (List Change)) : Status := entries.foldl add {}

end Status

end TagVersion
