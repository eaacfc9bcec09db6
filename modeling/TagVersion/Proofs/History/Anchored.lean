import TagVersion.Proofs.History.Built

/-!
What the tags of a history point at. In a history built, tags and tag objects point at ids that have
been made, and tag objects sit on commits. So nothing refers to an id that is yet to be made, and a
step leaves all that is known of the older ids as it is.
-/

namespace TagVersion.History

/-! ### Ids that have been made -/

variable {h : History} {s : Step} {id c : ObjectId}

/-- Whether an id has been made. -/
def Made (h : History) (id : ObjectId) : Prop := ∃ number ≤ h.made, id = idOf number

lemma made_le_apply (h : History) (s : Step) : h.made ≤ (h.apply s).made := by
  cases s <;> simp [apply, addCommit, tag]

lemma ids_subset_apply (h : History) (s : Step) : h.ids ⊆ (h.apply s).ids := by
  cases s <;> simp [apply, addCommit, tag, ids]

lemma Made.mono {h' : History} (hm : h.Made id) (hle : h.made ≤ h'.made) : h'.Made id := by
  obtain ⟨number, hnumber, rfl⟩ := hm
  exact ⟨number, Nat.le_trans hnumber hle, rfl⟩

lemma made_fresh {h' : History} (hmade : h'.made = h.made + 1) : h'.Made h.fresh :=
  ⟨_, Nat.le_of_eq hmade.symm, rfl⟩

lemma Made.ne_fresh (hm : h.Made id) (hlt : h.made + 1 < 2 ^ 32) : id ≠ h.fresh := by
  rintro rfl
  obtain ⟨number, hle, heq⟩ := hm
  have := idOf_injective hlt (by omega) heq
  omega

/-- Tags and tag objects point at ids that have been made, and tag objects sit on commits. -/
structure Anchored (h : History) : Prop where
  targets : ∀ entry ∈ h.tags, h.Made entry.2
  objects : ∀ object ∈ h.tagObjects, h.Made object.1
  commits : ∀ object ∈ h.tagObjects, object.2.1 ∈ h.ids

namespace Anchored

lemma of_same {h' : History} (ha : Anchored h) (hmade : h.made ≤ h'.made) (hids : h.ids ⊆ h'.ids)
    (htags : h'.tags = h.tags) (hobjects : h'.tagObjects = h.tagObjects) : Anchored h' where
  targets := by
    rw [htags]
    exact fun entry hentry => (ha.targets entry hentry).mono hmade
  objects := by
    rw [hobjects]
    exact fun object hobject => (ha.objects object hobject).mono hmade
  commits := by
    rw [hobjects]
    exact fun object hobject => hids (ha.commits object hobject)

lemma tag (ha : Anchored h) (name : String) (hm : h.Made id) : Anchored (h.tag name id) where
  targets entry hentry := by
    rcases mem_of_mem_insertNamed hentry with hold | rfl
    · exact ha.targets entry hold
    · exact hm
  objects := ha.objects
  commits := ha.commits

/-- A tag object with the next id. -/
lemma addObject (ha : Anchored h) (hc : c ∈ h.ids) (time : Option Instant) :
    Anchored { h with tagObjects := (h.fresh, c, time) :: h.tagObjects, made := h.made + 1 } where
  targets entry hentry := (ha.targets entry hentry).mono (Nat.le_succ _)
  objects := List.forall_mem_cons.mpr
    ⟨made_fresh rfl, fun object hobject => (ha.objects object hobject).mono (Nat.le_succ _)⟩
  commits := List.forall_mem_cons.mpr ⟨hc, ha.commits⟩

lemma apply (ha : Anchored h) (hc : Coherent h) (hs : s.Allowed h) : Anchored (h.apply s) := by
  cases s with
  | lightweight name c => exact ha.tag name (hc.made c hs)
  | annotated name c time => exact (ha.addObject hs time).tag name (made_fresh rfl)
  | nonCommit name =>
    have hnext : Anchored { h with made := h.made + 1 } :=
      ha.of_same (Nat.le_succ _) (List.Subset.refl _) rfl rfl
    exact hnext.tag name (made_fresh rfl)
  | commit | commitHead | mergeHead | setHead | checkout | setBranch | setClean | failOn =>
    exact ha.of_same (h.made_le_apply _) (h.ids_subset_apply _) rfl rfl

lemma lookup_fresh (ha : Anchored h) (hlt : h.made + 1 < 2 ^ 32) :
    h.tagObjects.lookup h.fresh = none := by
  cases hlookup : h.tagObjects.lookup h.fresh with
  | none => rfl
  | some object => exact absurd rfl ((ha.objects _ (mem_of_lookup hlookup)).ne_fresh hlt)

/-- A tag leads to commits only. -/
lemma mem_ids_of_peel (ha : Anchored h) (hpeel : h.peel id = some c) : c ∈ h.ids := by
  unfold peel at hpeel
  split at hpeel
  · next ps hlookup => exact Option.some.inj hpeel ▸ mem_map_fst_of_lookup hlookup
  · obtain ⟨object, hobject, rfl⟩ := Option.map_eq_some_iff.mp hpeel
    exact ha.commits _ (mem_of_lookup hobject)

end Anchored

/-- **Histories built are anchored.** -/
theorem Built.anchored (hb : Built h) : Anchored h := by
  induction hb with
  | empty => exact ⟨by simp, by simp, by simp⟩
  | step hb hs _ ih => exact ih.apply hb.coherent hs

/-! ### What a step leaves as it is -/

lemma lookup_commits_apply (hm : h.Made id) (hlt : (h.apply s).made < 2 ^ 32) :
    (h.apply s).commits.lookup id = h.commits.lookup id := by
  cases s with
  | commit | commitHead | mergeHead =>
    show List.lookup id ((h.fresh, _) :: h.commits) = _
    rw [List.lookup_cons, beq_false_of_ne (hm.ne_fresh hlt)]
  | setHead | checkout | setBranch | setClean | lightweight | annotated | nonCommit | failOn => rfl

lemma lookup_tagObjects_apply (hm : h.Made id) (hlt : (h.apply s).made < 2 ^ 32) :
    (h.apply s).tagObjects.lookup id = h.tagObjects.lookup id := by
  cases s with
  | annotated name c time =>
    show List.lookup id ((h.fresh, c, time) :: h.tagObjects) = _
    rw [List.lookup_cons, beq_false_of_ne (hm.ne_fresh hlt)]
  | commit | commitHead | mergeHead | setHead | checkout | setBranch | setClean | lightweight
  | nonCommit | failOn => rfl

lemma peel_apply (hm : h.Made id) (hlt : (h.apply s).made < 2 ^ 32) :
    (h.apply s).peel id = h.peel id := by
  unfold peel
  rw [lookup_commits_apply hm hlt, lookup_tagObjects_apply hm hlt]

/-- A commit keeps its parents. -/
lemma parents?_apply (hc : Coherent h) (hlt : (h.apply s).made < 2 ^ 32) {ps : List ObjectId}
    (hps : h.parents? c = some ps) : (h.apply s).parents? c = some ps :=
  (lookup_commits_apply (hc.made c (mem_map_fst_of_lookup hps)) hlt).trans hps

end TagVersion.History
