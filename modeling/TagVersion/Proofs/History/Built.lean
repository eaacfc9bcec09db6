import Mathlib.Algebra.Group.Nat.Defs
import Mathlib.Data.List.Nodup
import TagVersion.History
import TagVersion.Proofs.Describe.FirstParents
import TagVersion.Proofs.Tag
import TagVersion.Proofs.Text.Hex

/-!
Histories built step by step, where a step only speaks of commits made before. What every such
history has: its commits are distinct and each comes after its parents, so that the first parents
of a commit come to an end; its tip is one of them; its tags are named differently.
-/

namespace TagVersion

namespace History

open Describe

lemma text_idOf (number : Nat) : (idOf number).text = String.ofList (idDigits number) := rfl

lemma idOf_injective {m n : Nat} (hm : m < 2 ^ 32) (hn : n < 2 ^ 32) (h : idOf m = idOf n) :
    m = n := by
  have hdigits : idDigits m = idDigits n := by
    have htext := congrArg ObjectId.text h
    rw [text_idOf, text_idOf] at htext
    exact String.ofList_injective htext
  have hpow : 2 ^ 32 = 16 ^ 8 := by decide
  rw [hpow] at hm hn
  exact Hex.numeral_injective hm hn (List.append_inj' hdigits (by simp)).2

/-! ### Names in order -/

section

variable {α : Type} {name : String} {value : α} {named : List (String × α)} {entry : String × α}

lemma mem_of_mem_insertNamed (h : entry ∈ insertNamed name value named) :
    entry ∈ named ∨ entry = (name, value) := by
  fun_induction insertNamed name value named with
  | case1 => exact .inr (List.mem_singleton.mp h)
  | case2 old oldValue rest hlt => exact (List.mem_cons.mp h).symm
  | case3 old oldValue rest heq => exact (List.mem_cons.mp h).symm.imp_left (.tail _)
  | case4 old oldValue rest hgt ih =>
    rcases List.mem_cons.mp h with hold | hrest
    · exact .inl (hold ▸ .head _)
    · exact (ih hrest).imp_left (.tail _)

lemma mem_insertNamed_self : (name, value) ∈ insertNamed name value named := by
  fun_induction insertNamed name value named with
  | case1 => exact .head _
  | case2 => exact .head _
  | case3 => exact .head _
  | case4 old oldValue rest hgt ih => exact .tail _ ih

/-- A name that is not in use takes the place of no other. -/
lemma mem_insertNamed_of_mem (hunused : name ∉ named.map Prod.fst) (h : entry ∈ named) :
    entry ∈ insertNamed name value named := by
  fun_induction insertNamed name value named with
  | case1 => simp at h
  | case2 old oldValue rest hlt => exact .tail _ h
  | case3 old oldValue rest heq =>
    exact absurd (List.mem_cons.mpr (.inl (Std.compare_eq_iff_eq.mp heq))) hunused
  | case4 old oldValue rest hgt ih =>
    rcases List.mem_cons.mp h with hold | hrest
    · exact hold ▸ .head _
    · exact .tail _ (ih (fun hmem => hunused (.tail _ hmem)) hrest)

lemma mem_insertNamed_iff (hunused : name ∉ named.map Prod.fst) :
    entry ∈ insertNamed name value named ↔ entry ∈ named ∨ entry = (name, value) := by
  refine ⟨mem_of_mem_insertNamed, ?_⟩
  rintro (h | rfl)
  · exact mem_insertNamed_of_mem hunused h
  · exact mem_insertNamed_self

end

lemma pairwise_insertNamed {α : Type} {name : String} {value : α} {named : List (String × α)}
    (h : (named.map Prod.fst).Pairwise (· < ·)) :
    ((insertNamed name value named).map Prod.fst).Pairwise (· < ·) := by
  fun_induction insertNamed name value named with
  | case1 => simp
  | case2 old oldValue rest hlt =>
    have hlt : name < old := Tag.compare_string_eq_gt_iff.mp (Std.OrientedCmp.gt_iff_lt.mpr hlt)
    refine List.pairwise_cons.mpr ⟨fun other hother => ?_, h⟩
    rcases List.mem_cons.mp hother with rfl | hrest
    · exact hlt
    · exact String.lt_trans hlt ((List.pairwise_cons.mp h).1 other hrest)
  | case3 old oldValue rest heq =>
    rw [Std.compare_eq_iff_eq.mp heq]
    exact h
  | case4 old oldValue rest hgt ih =>
    obtain ⟨hfirst, hrest⟩ := List.pairwise_cons.mp h
    refine List.pairwise_cons.mpr ⟨fun other hother => ?_, ih hrest⟩
    obtain ⟨entry, hentry, rfl⟩ := List.mem_map.mp hother
    rcases mem_of_mem_insertNamed hentry with hold | rfl
    · exact hfirst _ (List.mem_map_of_mem hold)
    · exact Tag.compare_string_eq_gt_iff.mp hgt

/-! ### Commits in order -/

/-- The commits that have been made, newest first. -/
def ids (h : History) : List ObjectId := h.commits.map Prod.fst

/-- The parents of a commit. -/
def parents? (h : History) (c : ObjectId) : Option (List ObjectId) := h.commits.lookup c

/-- Commits, newest first, that are distinct and come after their parents. -/
inductive Grown : List (ObjectId × List ObjectId) → Prop where
  | nil : Grown []
  | cons {c : ObjectId} {ps : List ObjectId} {older : List (ObjectId × List ObjectId)} :
      c ∉ older.map Prod.fst → ps ⊆ older.map Prod.fst → Grown older → Grown ((c, ps) :: older)

lemma mem_map_fst_of_lookup {commits : List (ObjectId × List ObjectId)} {c : ObjectId}
    {ps : List ObjectId} (h : commits.lookup c = some ps) : c ∈ commits.map Prod.fst :=
  List.mem_map.mpr ⟨_, mem_of_lookup h, rfl⟩

/-- The parents of a commit are commits. -/
lemma Grown.mem_of_parent {commits : List (ObjectId × List ObjectId)} (h : Grown commits)
    {c p : ObjectId} {ps : List ObjectId} (hps : commits.lookup c = some ps) (hp : p ∈ ps) :
    p ∈ commits.map Prod.fst := by
  induction h with
  | nil => simp at hps
  | @cons new qs older hnew hqs _ ih =>
    rw [List.lookup_cons] at hps
    split at hps
    · obtain rfl := Option.some.inj hps
      exact .tail _ (hqs hp)
    · exact .tail _ (ih hps)

/-- **First parents come to an end.** A commit made later adds nothing to the chain of an older
one. -/
theorem Grown.firstParents {commits : List (ObjectId × List ObjectId)} (h : Grown commits)
    {c : ObjectId} (hc : c ∈ commits.map Prod.fst) :
    ∃ chain, FirstParents (fun d => commits.lookup d) c chain := by
  induction h generalizing c with
  | nil => simp at hc
  | @cons new ps older hnew hps _ ih =>
    have hkeep : ∀ d qs, older.lookup d = some qs → ((new, ps) :: older).lookup d = some qs := by
      intro d qs hd
      have hne : d ≠ new := fun heq => hnew (heq ▸ mem_map_fst_of_lookup hd)
      rw [List.lookup_cons, beq_false_of_ne hne]
      exact hd
    have hself : ((new, ps) :: older).lookup new = some ps := by simp
    rcases List.mem_cons.mp hc with rfl | hc
    · cases ps with
      | nil => exact ⟨_, .last hself⟩
      | cons p others =>
        obtain ⟨chain, hchain⟩ := ih (hps (.head _))
        exact ⟨_, .step hself (hchain.mono hkeep)⟩
    · obtain ⟨chain, hchain⟩ := ih hc
      exact ⟨chain, hchain.mono hkeep⟩

/-! ### Histories built -/

/-- Whether a step only speaks of commits that have been made. -/
def Step.Allowed (h : History) : Step → Prop
  | .commit parents => parents ⊆ h.ids
  | .mergeHead c => c ∈ h.ids
  | .setHead c => c ∈ h.ids
  | .checkout c => c ∈ h.ids
  | .lightweight _ c => c ∈ h.ids
  | .annotated _ c _ => c ∈ h.ids
  | .commitHead | .setBranch _ | .setClean _ | .nonCommit _ | .failOn _ _ => True

instance (h : History) : ∀ s : Step, Decidable (s.Allowed h)
  | .commit parents => inferInstanceAs (Decidable (parents ⊆ h.ids))
  | .mergeHead c | .setHead c | .checkout c | .lightweight _ c | .annotated _ c _ =>
    inferInstanceAs (Decidable (c ∈ h.ids))
  | .commitHead | .setBranch _ | .setClean _ | .nonCommit _ | .failOn _ _ =>
    inferInstanceAs (Decidable True)

/-- The histories that steps build from the empty one. No more ids are made than there are numbers
with eight digits; a step that would need one more does not come to an end. -/
inductive Built : History → Prop where
  | empty : Built {}
  | step {h : History} {s : Step} :
      Built h → s.Allowed h → (h.apply s).made < 2 ^ 32 → Built (h.apply s)

/-- What holds of every history built. -/
structure Coherent (h : History) : Prop where
  grown : Grown h.commits
  made : ∀ c ∈ h.ids, ∃ number ≤ h.made, c = idOf number
  size : h.commits.length ≤ h.made
  head : ∀ tip, h.head = some tip → tip ∈ h.ids
  names : (h.tags.map Prod.fst).Pairwise (· < ·)

namespace Coherent

variable {h : History}

lemma fresh_notMem (hc : Coherent h) (hlt : h.made + 1 < 2 ^ 32) : h.fresh ∉ h.ids := by
  intro hmem
  obtain ⟨number, hle, heq⟩ := hc.made _ hmem
  have := idOf_injective hlt (by omega) heq
  omega

lemma head_subset (hc : Coherent h) : h.head.toList ⊆ h.ids := by
  intro c hmem
  exact hc.head c (by simpa using hmem)

lemma addCommit (hc : Coherent h) (hlt : h.made + 1 < 2 ^ 32) {parents : List ObjectId}
    (hparents : parents ⊆ h.ids) : Coherent (h.addCommit parents) where
  grown := .cons (hc.fresh_notMem hlt) hparents hc.grown
  made c hmem := by
    rcases List.mem_cons.mp hmem with rfl | hmem
    · exact ⟨_, Nat.le_refl _, rfl⟩
    · obtain ⟨number, hle, heq⟩ := hc.made c hmem
      exact ⟨number, Nat.le_succ_of_le hle, heq⟩
  size := Nat.succ_le_succ hc.size
  head tip htip := .tail _ (hc.head tip htip)
  names := hc.names

lemma moveHead (hc : Coherent h) {c : ObjectId} (hmem : c ∈ h.ids) (branch : String) :
    Coherent { h with head := some c, branch } where
  grown := hc.grown
  made := hc.made
  size := hc.size
  head tip htip := by
    obtain rfl : c = tip := by simpa using htip
    exact hmem
  names := hc.names

lemma tag (hc : Coherent h) (name : String) (target : ObjectId) : Coherent (h.tag name target) where
  grown := hc.grown
  made := hc.made
  size := hc.size
  head := hc.head
  names := pairwise_insertNamed hc.names

/-- An id made for anything but a commit. -/
lemma addObjects (hc : Coherent h) (objects : List (ObjectId × ObjectId × Option Instant)) :
    Coherent { h with tagObjects := objects, made := h.made + 1 } where
  grown := hc.grown
  made c hmem := by
    obtain ⟨number, hle, heq⟩ := hc.made c hmem
    exact ⟨number, Nat.le_succ_of_le hle, heq⟩
  size := Nat.le_succ_of_le hc.size
  head := hc.head
  names := hc.names

lemma apply (hc : Coherent h) {s : Step} (hs : s.Allowed h) (hlt : (h.apply s).made < 2 ^ 32) :
    Coherent (h.apply s) := by
  cases s with
  | commit parents => exact hc.addCommit hlt hs
  | commitHead => exact (hc.addCommit hlt hc.head_subset).moveHead (.head _) _
  | mergeHead other =>
    refine (hc.addCommit hlt (List.append_subset.mpr ⟨hc.head_subset, ?_⟩)).moveHead (.head _) _
    exact List.cons_subset.mpr ⟨hs, List.nil_subset _⟩
  | setHead c => exact hc.moveHead hs _
  | checkout c => exact hc.moveHead hs _
  | setBranch name => exact ⟨hc.grown, hc.made, hc.size, hc.head, hc.names⟩
  | setClean clean => exact ⟨hc.grown, hc.made, hc.size, hc.head, hc.names⟩
  | lightweight name c => exact hc.tag name c
  | annotated name c time => exact (hc.addObjects _).tag name _
  | nonCommit name => exact (hc.addObjects _).tag name _
  | failOn kind code => exact ⟨hc.grown, hc.made, hc.size, hc.head, hc.names⟩

lemma firstParents (hc : Coherent h) {tip : ObjectId} (htip : h.head = some tip) :
    ∃ chain, FirstParents h.parents? tip chain :=
  hc.grown.firstParents (hc.head tip htip)

lemma nodup_names (hc : Coherent h) : (h.tags.map Prod.fst).Nodup :=
  hc.names.imp String.ne_of_lt

end Coherent

/-- **Histories built are coherent.** -/
theorem Built.coherent {h : History} (hb : Built h) : Coherent h := by
  induction hb with
  | empty => exact ⟨.nil, by simp [ids], Nat.le_refl _, by simp, by simp⟩
  | step _ hs hlt ih => exact ih.apply hs hlt

lemma Built.made_lt {h : History} (hb : Built h) : h.made < 2 ^ 32 := by
  cases hb with
  | empty => decide
  | step _ _ hlt => exact hlt

/-- Whether steps can be taken one after the other. -/
def Admits (h : History) : List Step → Prop
  | [] => True
  | s :: steps => s.Allowed h ∧ (h.apply s).made < 2 ^ 32 ∧ (h.apply s).Admits steps

instance : ∀ (h : History) (steps : List Step), Decidable (h.Admits steps)
  | _, [] => inferInstanceAs (Decidable True)
  | h, s :: steps =>
    have := instDecidableAdmits (h.apply s) steps
    inferInstanceAs (Decidable (_ ∧ _ ∧ _))

lemma Built.build {h : History} (hb : Built h) {steps : List Step} (hs : h.Admits steps) :
    Built (h.build steps) := by
  induction steps generalizing h with
  | nil => exact hb
  | cons s steps ih =>
    obtain ⟨hallowed, hlt, hrest⟩ := hs
    exact ih (hb.step hallowed hlt) hrest

/-- A history with a merge at its tip. The second parent of the tip has a tag of its own; the first
has two. -/
def merged : History :=
  build {} [.commitHead, .lightweight "v1" (idOf 1), .annotated "v0" (idOf 1) none, .commit [],
    .lightweight "v9" (idOf 3), .nonCommit "v3", .mergeHead (idOf 3)]

lemma built_merged : merged.Built := Built.empty.build (by decide)

end History

end TagVersion
