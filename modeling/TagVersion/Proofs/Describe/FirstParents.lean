import Mathlib.Data.List.Perm.Subperm
import TagVersion.ObjectId

/-!
The commits that a walk along first parents passes. Where the walk ends, it ends in one way, and no
commit comes twice: a commit that came back would have to bring everything after it back as well.
So the walk is no longer than the commits are many.
-/

namespace TagVersion.Describe

/-- The commits from one on, each the first parent of the one before it, to one without parents. -/
inductive FirstParents (parents : ObjectId → Option (List ObjectId)) :
    ObjectId → List ObjectId → Prop where
  | last {c : ObjectId} : parents c = some [] → FirstParents parents c [c]
  | step {c p : ObjectId} {others chain : List ObjectId} : parents c = some (p :: others) →
      FirstParents parents p chain → FirstParents parents c (c :: chain)

namespace FirstParents

variable {parents : ObjectId → Option (List ObjectId)} {c : ObjectId} {chain : List ObjectId}

lemma head?_eq (h : FirstParents parents c chain) : chain.head? = some c := by
  cases h <;> rfl

lemma ne_nil (h : FirstParents parents c chain) : chain ≠ [] := by
  cases h <;> simp

lemma unique {other : List ObjectId} (h : FirstParents parents c chain)
    (h' : FirstParents parents c other) : chain = other := by
  induction h generalizing other with
  | last hc =>
    cases h' with
    | last => rfl
    | step hc' => simp [hc] at hc'
  | step hc _ ih =>
    cases h' with
    | last hc' => simp [hc] at hc'
    | step hc' h' =>
      obtain ⟨rfl, rfl⟩ : _ ∧ _ := by simpa [hc] using hc'
      rw [ih h']

lemma mono {parents' : ObjectId → Option (List ObjectId)} (h : FirstParents parents c chain)
    (hkeep : ∀ d ps, parents d = some ps → parents' d = some ps) :
    FirstParents parents' c chain := by
  induction h with
  | last hc => exact .last (hkeep _ _ hc)
  | step hc _ ih => exact .step (hkeep _ _ hc) ih

/-- From a commit of the chain on, the rest of it is that commit's own chain. -/
lemma of_mem {d : ObjectId} (h : FirstParents parents c chain) (hd : d ∈ chain) :
    ∃ rest, FirstParents parents d rest ∧ rest <:+ chain := by
  induction h with
  | last hc =>
    obtain rfl := List.mem_singleton.mp hd
    exact ⟨_, .last hc, List.suffix_rfl⟩
  | step hc hp ih =>
    rcases List.mem_cons.mp hd with rfl | hd
    · exact ⟨_, .step hc hp, List.suffix_rfl⟩
    · obtain ⟨rest, hrest, hsuf⟩ := ih hd
      exact ⟨rest, hrest, hsuf.trans (List.suffix_cons _ _)⟩

lemma nodup (h : FirstParents parents c chain) : chain.Nodup := by
  induction h with
  | last => simp
  | @step c p others chain hc hp ih =>
    refine List.nodup_cons.mpr ⟨fun hmem => ?_, ih⟩
    -- a second `c` would have a chain of its own inside the first one's tail
    obtain ⟨rest, hrest, hsuf⟩ := hp.of_mem hmem
    have hlen := hsuf.length_le
    rw [hrest.unique (.step hc hp), List.length_cons] at hlen
    omega

/-- Every commit of the chain has its parents told. -/
lemma parents_of_mem {d : ObjectId} (h : FirstParents parents c chain) (hd : d ∈ chain) :
    ∃ ps, parents d = some ps := by
  obtain ⟨rest, hrest, -⟩ := h.of_mem hd
  cases hrest with
  | last hd => exact ⟨_, hd⟩
  | step hd => exact ⟨_, hd⟩

/-- **The chain is no longer than the commits are many.** -/
theorem length_le {commits : List ObjectId} (h : FirstParents parents c chain)
    (hmem : ∀ d ps, parents d = some ps → d ∈ commits) : chain.length ≤ commits.length := by
  refine (List.subperm_of_subset h.nodup fun d hd => ?_).length_le
  obtain ⟨ps, hps⟩ := h.parents_of_mem hd
  exact hmem d ps hps

end FirstParents

end TagVersion.Describe
