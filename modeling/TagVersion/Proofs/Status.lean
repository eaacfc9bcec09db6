import Mathlib.Data.List.Perm.Basic
import Mathlib.Tactic.Lemma
import TagVersion.Status

/-!
What a summary counts. The fold is told by how many entries belong to each category, so that
neither the order of the entries nor that of an entry's changes matters; and a work tree is clean
just if no entry belongs to any.
-/

namespace TagVersion

namespace Change

variable {change : Change}

lemma isStaged_iff : change.isStaged = true ↔
    change ∈ [indexNew, indexModified, indexDeleted, indexRenamed, indexTypeChanged] := by
  cases change <;> decide

lemma isUnstaged_iff : change.isUnstaged = true ↔
    change ∈ [treeModified, treeDeleted, treeRenamed, treeTypeChanged] := by
  cases change <;> decide

end Change

namespace Status

variable {entries entries' : List (List Change)}

/-- A summary that goes on from another adds what it counts to it. -/
lemma foldl_add (entries : List (List Change)) (s : Status) :
    entries.foldl add s = {
      staged := s.staged + entries.countP (·.any Change.isStaged)
      unstaged := s.unstaged + entries.countP (·.any Change.isUnstaged)
      untracked := s.untracked + entries.countP (·.contains .treeNew)
      conflicts := s.conflicts || entries.any (·.contains .conflicted) } := by
  induction entries generalizing s with
  | nil => simp
  | cons entry entries ih =>
    have htoNat : ∀ b : Bool, b.toNat = if b then 1 else 0 := by decide
    rw [List.foldl_cons, ih]
    simp only [add, List.countP_cons, List.any_cons, Bool.or_assoc, htoNat, Nat.add_assoc,
      Nat.add_comm]

lemma ofEntries_eq (entries : List (List Change)) :
    ofEntries entries = {
      staged := entries.countP (·.any Change.isStaged)
      unstaged := entries.countP (·.any Change.isUnstaged)
      untracked := entries.countP (·.contains .treeNew)
      conflicts := entries.any (·.contains .conflicted) } := by
  simp [ofEntries, foldl_add]

lemma ofEntries_perm (h : entries'.Perm entries) : ofEntries entries' = ofEntries entries := by
  simp only [ofEntries_eq, h.countP_eq, h.any_eq]

lemma any_isStaged (entry : List Change) : entry.any Change.isStaged =
    decide (∃ change ∈ [Change.indexNew, .indexModified, .indexDeleted, .indexRenamed,
      .indexTypeChanged], change ∈ entry) := by
  rw [Bool.eq_iff_iff, List.any_eq_true, decide_eq_true_iff]
  simp only [Change.isStaged_iff, and_comm]

lemma any_isUnstaged (entry : List Change) : entry.any Change.isUnstaged =
    decide (∃ change ∈ [Change.treeModified, .treeDeleted, .treeRenamed, .treeTypeChanged],
      change ∈ entry) := by
  rw [Bool.eq_iff_iff, List.any_eq_true, decide_eq_true_iff]
  simp only [Change.isUnstaged_iff, and_comm]

lemma isClean_iff {s : Status} : s.isClean = true ↔
    s.staged = 0 ∧ s.unstaged = 0 ∧ s.untracked = 0 ∧ s.conflicts = false := by
  simp [isClean, and_assoc]

/-- **No change escapes the summary.** A category counts the entries that have one or more of its
changes, and an entry counts in each category that it has a change of, in whichever order the
entries come. So the work tree is clean just if no entry has any of the changes. -/
theorem ofEntries_counts (entries : List (List Change)) :
    let inIndex : List Change :=
      [.indexNew, .indexModified, .indexDeleted, .indexRenamed, .indexTypeChanged]
    let inTree : List Change := [.treeModified, .treeDeleted, .treeRenamed, .treeTypeChanged]
    let status := ofEntries entries
    status.staged = entries.countP (fun entry => ∃ change ∈ inIndex, change ∈ entry) ∧
    status.unstaged = entries.countP (fun entry => ∃ change ∈ inTree, change ∈ entry) ∧
    status.untracked = entries.countP (fun entry => .treeNew ∈ entry) ∧
    (status.conflicts = true ↔ ∃ entry ∈ entries, .conflicted ∈ entry) ∧
    (status.isClean = true ↔ ∀ entry ∈ entries, ∀ change ∈ entry,
      change ∉ inIndex ++ inTree ++ [.treeNew, .conflicted]) ∧
    ∀ entries', entries'.Perm entries → ofEntries entries' = status := by
  intro inIndex inTree status
  have hstaged : status.staged =
      entries.countP (fun entry => ∃ change ∈ inIndex, change ∈ entry) := by
    simp only [status, ofEntries_eq, any_isStaged, inIndex]
  have hunstaged : status.unstaged =
      entries.countP (fun entry => ∃ change ∈ inTree, change ∈ entry) := by
    simp only [status, ofEntries_eq, any_isUnstaged, inTree]
  have huntracked : status.untracked = entries.countP (fun entry => .treeNew ∈ entry) := by
    simp only [status, ofEntries_eq, List.contains_eq_mem]
  have hconflicts : status.conflicts = true ↔ ∃ entry ∈ entries, .conflicted ∈ entry := by
    simp only [status, ofEntries_eq, List.any_eq_true, List.contains_iff_mem]
  refine ⟨hstaged, hunstaged, huntracked, hconflicts, ?_, fun _ => ofEntries_perm⟩
  rw [isClean_iff, hstaged, hunstaged, huntracked, ← Bool.not_eq_true, hconflicts]
  simp only [List.countP_eq_zero, decide_eq_true_eq, List.mem_append, not_or]
  constructor
  · rintro ⟨hindex, htree, hnew, hconflict⟩ entry hentry change hchange
    refine ⟨⟨fun h => hindex entry hentry ⟨change, h, hchange⟩,
      fun h => htree entry hentry ⟨change, h, hchange⟩⟩, fun h => ?_⟩
    rcases List.mem_pair.mp h with rfl | rfl
    · exact hnew entry hentry hchange
    · exact hconflict ⟨entry, hentry, hchange⟩
  · intro h
    refine ⟨?_, ?_, ?_, ?_⟩
    · rintro entry hentry ⟨change, hmem, hchange⟩
      exact (h entry hentry change hchange).1.1 hmem
    · rintro entry hentry ⟨change, hmem, hchange⟩
      exact (h entry hentry change hchange).1.2 hmem
    · exact fun entry hentry hchange => (h entry hentry _ hchange).2 (.head _)
    · rintro ⟨entry, hentry, hchange⟩
      exact (h entry hentry _ hchange).2 (.tail _ (.head _))

/-- A file that is changed in the index and behind it, one that is ignored, a new one, and one in
conflict that is gone. -/
theorem ofEntries_counts_mixed :
    let entries : List (List Change) :=
      [[.indexModified, .treeModified], [.ignored], [.treeNew], [.conflicted, .treeDeleted]]
    let status : Status := ⟨1, 2, 1, true⟩
    entries.reverse.Perm entries ∧ ofEntries entries = status ∧
      ofEntries entries.reverse = status ∧ status.isClean = false := by
  intro entries status
  have hperm : entries.reverse.Perm entries := List.reverse_perm entries
  obtain ⟨-, -, -, -, hclean, horder⟩ := ofEntries_counts entries
  have hstatus : ofEntries entries = status := rfl
  refine ⟨hperm, hstatus, (horder _ hperm).trans hstatus, ?_⟩
  rw [← hstatus, Bool.eq_false_iff, Ne, hclean]
  exact fun h => h _ (.head _) _ (.head _) (by decide)

end Status

end TagVersion
