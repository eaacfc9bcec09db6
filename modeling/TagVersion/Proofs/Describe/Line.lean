import TagVersion.Git.Sha1
import TagVersion.Proofs.Describe.FirstParents
import TagVersion.Proofs.Text.Hex
import TagVersion.Repository.Basic

/-!
A history that is one line of commits, as long as one likes, with a tag on the commit below the tip.
The id of a commit writes the number of steps from it to the root. Nothing but the number of ids
bounds the length, so a line can be longer than a distance can tell.
-/

namespace TagVersion.Line

open Describe ObjectId

variable {n i j : Nat}

lemma text_ofNumber (i : Nat) : (ofNumber i).text = String.ofList (Hex.numeral 40 i) := rfl

lemma ofNumber_injective (hi : i < 16 ^ 40) (hj : j < 16 ^ 40) (h : ofNumber i = ofNumber j) :
    i = j := by
  have htext := congrArg ObjectId.text h
  rw [text_ofNumber, text_ofNumber] at htext
  have hdigits := String.ofList_injective htext
  exact Hex.numeral_injective hi hj hdigits

/-- The commits from one on, down to the root. -/
def chain : Nat → List ObjectId
  | 0 => [ofNumber 0]
  | i + 1 => ofNumber (i + 1) :: chain i

@[simp] lemma length_chain (i : Nat) : (chain i).length = i + 1 := by
  induction i with
  | zero => rfl
  | succ i ih => rw [chain, List.length_cons, ih]

/-- The parents of a commit, in a line with `n` commits above the root. -/
def parents (n : Nat) (c : ObjectId) : Except Repository.Failure (List ObjectId) :=
  match (List.range (n + 1)).find? (ofNumber · = c) with
  | some 0 => .ok []
  | some (i + 1) => .ok [ofNumber i]
  | none => .error (.operation "read commit" "no such commit" none)

lemma find?_range (hi : i ≤ n) (hn : n < 16 ^ 40) :
    (List.range (n + 1)).find? (ofNumber · = ofNumber i) = some i := by
  cases hfind : (List.range (n + 1)).find? (ofNumber · = ofNumber i) with
  | none =>
    have hnot := List.find?_eq_none.mp hfind i (List.mem_range.mpr (Nat.lt_succ_of_le hi))
    simp at hnot
  | some j =>
    have hj : j ≤ n := Nat.le_of_lt_succ (List.mem_range.mp (List.mem_of_find?_eq_some hfind))
    have heq : ofNumber j = ofNumber i :=
      of_decide_eq_true (List.find?_some (p := fun k => decide (ofNumber k = ofNumber i)) hfind)
    rw [ofNumber_injective (Nat.lt_of_le_of_lt hj hn) (Nat.lt_of_le_of_lt hi hn) heq]

lemma mem_of_parents {c : ObjectId} {ps : List ObjectId} (h : parents n c = .ok ps) :
    c ∈ (List.range (n + 1)).map ofNumber := by
  cases hfind : (List.range (n + 1)).find? (ofNumber · = c) with
  | none => simp [parents, hfind] at h
  | some i =>
    have heq : ofNumber i = c :=
      of_decide_eq_true (List.find?_some (p := fun k => decide (ofNumber k = c)) hfind)
    exact heq ▸ List.mem_map_of_mem (List.mem_of_find?_eq_some hfind)

lemma firstParents (hi : i ≤ n) (hn : n < 16 ^ 40) :
    FirstParents (fun c => (parents n c).toOption) (ofNumber i) (chain i) := by
  induction i with
  | zero => exact .last (by simp [parents, find?_range hi hn, Except.toOption])
  | succ i ih =>
    have hparents : (parents n (ofNumber (i + 1))).toOption = some [ofNumber i] := by
      simp [parents, find?_range hi hn, Except.toOption]
    exact .step hparents (ih (Nat.le_of_succ_le hi))

/-- The one tag, on the commit below the tip. -/
def tag (n : Nat) : TagRef := ⟨"p", ofNumber (n - 1)⟩

/-- The line with `n` commits above the root. -/
def repository (n : Nat) : Repository where
  head := .ok (some (ofNumber n))
  tags start := .ok ([tag n].filter fun ref => start.toList.isPrefixOf ref.name.toList)
  peel ref := .ok (some ref.target)
  parents := parents n
  tagger _ := .ok none
  clean := .ok true
  branch := .ok "main"
  lines _ := []
  commits := (List.range (n + 1)).map ofNumber
  mem_commits _ _ := mem_of_parents

end TagVersion.Line
