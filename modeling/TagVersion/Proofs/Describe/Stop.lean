import TagVersion.Proofs.Describe.Nearest

/-!
A walk that stops at a tag. What lies beyond the commit where the walk stops need not come to an
end, nor be there at all, and the tip is described all the same: by the best of the tags there.
-/

namespace TagVersion.Repository

open Outcome Reading Describe

variable {r : Repository} {refs : List TagRef} {start : String} {tip c stop : ObjectId}
  {passed : List ObjectId}

/-- From a commit on, the walk along first parents passes some commits that none of the tags lead
to, and stops at one that one of them leads to. -/
inductive Passes (r : Repository) (refs : List TagRef) :
    ObjectId → List ObjectId → ObjectId → Prop where
  | stop {c : ObjectId} {ref : TagRef} : ref ∈ refs → r.peel ref = .ok (some c) →
      Passes r refs c [] c
  | step {c p stop : ObjectId} {others passed : List ObjectId} :
      (∀ ref ∈ refs, r.peel ref ≠ .ok (some c)) → r.parents c = .ok (p :: others) →
      Passes r refs p passed stop → Passes r refs c (c :: passed) stop

/-- The walk from the tip stops at a commit that a tag with the prefix leads to. -/
structure StopsAt (r : Repository) (start : String) (tip : ObjectId) (refs : List TagRef)
    (passed : List ObjectId) (stop : ObjectId) : Prop where
  head : r.head = .ok (some tip)
  tags : r.tags start = .ok refs
  peel : ∀ ref ∈ refs, ∃ c, r.peel ref = .ok c
  passes : r.Passes refs tip passed stop

lemma Passes.exists_ref (h : r.Passes refs c passed stop) :
    ∃ ref ∈ refs, r.peel ref = .ok (some stop) := by
  induction h with
  | stop href hpeel => exact ⟨_, href, hpeel⟩
  | step _ _ _ ih => exact ih

/-- If nothing came after the commit where the walk stops, the commits up to there would be all. -/
lemma Passes.firstParents (h : r.Passes refs c passed stop) :
    FirstParents (fun d => if d = stop then some [] else r.parents? d) c (passed ++ [stop]) := by
  induction h with
  | stop => exact .last (if_pos rfl)
  | @step c p stop others passed hnone hparents hpasses ih =>
    obtain ⟨ref, href, hpeel⟩ := hpasses.exists_ref
    have hne : c ≠ stop := by
      rintro rfl
      exact hnone ref href hpeel
    exact .step ((if_neg hne).trans (toOption_eq_some_iff.mpr hparents)) ih

/-- No more commits are passed than have parents. -/
lemma Passes.length_le (h : r.Passes refs c passed stop) : passed.length ≤ r.commits.length := by
  have hlen : (passed ++ [stop]).length ≤ (stop :: r.commits).length :=
    h.firstParents.length_le fun d ps hps => by
      split_ifs at hps with hd
      · exact hd ▸ List.mem_cons_self
      · exact List.mem_cons_of_mem _ (r.mem_commits d ps (toOption_eq_some_iff.mp hps))
  simpa using hlen

lemma untagged_facts_iff : (r.facts (some tip) refs).untagged c = true ↔
    ∀ ref ∈ refs, r.peel ref ≠ .ok (some c) := by
  rw [Facts.untagged, List.isEmpty_iff, List.eq_nil_iff_forall_not_mem]
  constructor
  · intro hnone ref href hpeel
    exact hnone (ref, c) (Facts.mem_group_iff.mpr ⟨href, lead_facts_eq_some_iff.mpr hpeel, rfl⟩)
  · rintro hnone candidate hmem
    obtain ⟨href, hlead, -⟩ := Facts.mem_group_iff.mp hmem
    exact hnone _ href (lead_facts_eq_some_iff.mp hlead)

lemma runs_walk_of_passes {fails : Query → Option Failure}
    (htells : Tells fails r start (r.facts (some tip) refs)) (h : r.Passes refs c passed stop)
    {bound : Nat} (hbound : passed.length < bound) (distance : UInt32) :
    let f := r.facts (some tip) refs
    Runs fails (walk r f.candidates bound c distance)
      (passed.map .parents ++ Facts.taggers (f.group stop))
      (.ok (Tag.select ((f.group stop).map f.tagOf), distance + .ofNat passed.length)) := by
  intro f
  induction h generalizing bound distance with
  | @stop c ref href hpeel =>
    obtain ⟨bound, rfl⟩ := Nat.exists_eq_add_of_le' (show 1 ≤ bound from hbound)
    have htag : f.untagged c = false := Bool.eq_false_iff.mpr fun huntagged =>
      untagged_facts_iff.mp huntagged ref href hpeel
    rw [List.length_nil, add_ofNat_zero]
    exact runs_walk_of_tagged htells htag _ _
  | @step c p stop others passed hnone hparents hpasses ih =>
    obtain ⟨bound, rfl⟩ := Nat.exists_eq_add_of_le' (Nat.one_le_of_lt hbound)
    have hrest := ih (Nat.lt_of_succ_lt_succ hbound) (distance + 1)
    have hask : Runs fails (r.askParents c) [.parents c] (.ok (p :: others)) :=
      r.runs_ask (htells.parents c _ (toOption_eq_some_iff.mpr hparents))
    rw [walk_of_untagged (untagged_facts_iff.mpr hnone), List.length_cons, add_ofNat_succ]
    exact hask.bind (runs_trace.bind hrest)

lemma StopsAt.tells (h : r.StopsAt start tip refs passed stop)
    (htagger : ∀ ref ∈ refs, ∃ time, r.tagger ref = .ok time) :
    Tells (fun _ => none) r start (r.facts (some tip) refs) where
  head := by rw [verdict_never, h.head, facts]
  tags := by rw [verdict_never, h.tags, facts]
  peel ref href := by
    obtain ⟨c, hc⟩ := h.peel ref href
    simp [facts, hc, Except.toOption]
  parents c ps hc := by rw [verdict_never, toOption_eq_some_iff.mp hc]
  tagger ref href := by
    obtain ⟨time, htime⟩ := htagger ref href
    simp [facts, htime, Except.toOption]
  commits c ps hc := r.mem_commits c ps (toOption_eq_some_iff.mp hc)

lemma mem_group_facts_iff (htagger : ∀ ref ∈ refs, ∃ time, r.tagger ref = .ok time) {t : Tag} :
    t ∈ ((r.facts (some tip) refs).group c).map (r.facts (some tip) refs).tagOf ↔
      (∃ ref ∈ refs, r.Leads ref t) ∧ t.peeled = c := by
  rw [Facts.mem_group_map_iff, mem_known_facts_iff htagger]

/-- **A walk that stops tells the tip** by a tag on the commit where it stops that no other tag
there beats. Of the number of commits passed the description keeps what thirty-two bits hold. -/
theorem describe_of_stopsAt (h : r.StopsAt start tip refs passed stop)
    (htagger : ∀ ref ∈ refs, ∃ time, r.tagger ref = .ok time) :
    ∃ ref ∈ refs, ∃ t, r.Leads ref t ∧ t.peeled = stop ∧
      (r.describe start).outcome =
        .ok (some ⟨some ref.name, .ofNat passed.length, tip.short 7, tip⟩) ∧
      ∀ other ∈ refs, ∀ u, r.Leads other u → u.peeled = stop → ¬ u.Beats t := by
  have htells := h.tells htagger
  have hne : ((r.facts (some tip) refs).group stop).map (r.facts (some tip) refs).tagOf ≠ [] := by
    obtain ⟨ref, href, hpeel⟩ := h.passes.exists_ref
    have htag : (r.facts (some tip) refs).untagged stop ≠ true := fun huntagged =>
      untagged_facts_iff.mp huntagged ref href hpeel
    simpa [Facts.untagged] using htag
  obtain ⟨t, ht, hsel, hbest⟩ := Tag.select_spec hne
  obtain ⟨⟨ref, href, hleads⟩, hpeeled⟩ := (mem_group_facts_iff htagger).mp ht
  have hbound : passed.length < r.commits.length + 1 := Nat.lt_succ_of_le h.passes.length_le
  have hruns := runs_describe_of_walk htells rfl (runs_walk_of_passes htells h.passes hbound 0)
  refine ⟨ref, href, t, hleads, hpeeled, ?_, fun other hother u hu hup =>
    hbest u ((mem_group_facts_iff htagger).mpr ⟨⟨other, hother, hu⟩, hup⟩)⟩
  rw [(hruns.of_never (by simp)).2, hsel, Option.map_some, hleads.name, UInt32.zero_add]
  rfl

end TagVersion.Repository
