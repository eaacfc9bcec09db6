import TagVersion.Proofs.Resolve.Steps

/-!
Steps of building that do not show in the version: a commit off the tip, a tag that leads to no
commit, and a tag whose name does not start with the prefix, or that the walk up from the tip does
not reach, or that is beaten where the walk stops.
-/

namespace TagVersion.History

open Reading Describe

/-- Tags that make no difference to the version for a prefix. -/
inductive Hidden (h : History) (p : Prefix) (u : Tag) : Prop where
  /-- The name does not start with the prefix. -/
  | foreign : ¬ p.text.toList <+: u.name.toList → h.Hidden p u
  /-- The commit is none of those from the tip to the one where the walk stops. -/
  | unreached : (∀ tip chain found, h.Walks p.text tip chain found →
      u.peeled ∉ chain.take (found.2 + 1)) → h.Hidden p u
  /-- The commit is the one where the walk stops, and the tag that is chosen there is better. -/
  | beaten {tip : ObjectId} {chain : List ObjectId} {t : Tag} {d : Nat} :
      h.Walks p.text tip chain (some t, d) → u.peeled = t.peeled → t.Beats u → h.Hidden p u

/-- Steps that make no difference to the version for a prefix. Tags get names not in use. -/
inductive Irrelevant (h : History) (p : Prefix) : Step → Prop where
  | commit {parents : List ObjectId} : h.Irrelevant p (.commit parents)
  | nonCommit {name : String} : name ∉ h.tags.map Prod.fst → h.Irrelevant p (.nonCommit name)
  | tag {s : Step} {u : Tag} : s.tag? h = some u → u.name ∉ h.tags.map Prod.fst → h.Hidden p u →
      h.Irrelevant p s

variable {h : History} {p : Prefix} {s : Step} {tip : ObjectId} {chain : List ObjectId}
  {found : Option Tag × Nat} {u : Tag}

/-- What is nearest stays the nearest when a hidden tag comes in. -/
lemma Hidden.nearest (hu : h.Hidden p u) (hw : h.Walks p.text tip chain found)
    (hstart : p.text.toList <+: u.name.toList) :
    IsNearest (insert u (h.tagged p.text)) chain found := by
  refine hw.nearest.insert hw.parents.nodup ?_
  cases hu with
  | foreign hforeign => exact absurd hstart hforeign
  | unreached hoff => exact .inl (hoff _ _ _ hw)
  | beaten hw' hpeeled hbeats =>
    obtain ⟨rfl, rfl, rfl⟩ := hw.unique hw'
    exact .inr ⟨_, rfl, hpeeled, hbeats⟩

namespace Irrelevant

lemma unused (hs : h.Irrelevant p s) : s.Unused h := by
  intro entry hentry
  cases hs with
  | commit => cases hentry
  | nonCommit hname =>
    obtain rfl := Option.some.inj hentry
    exact hname
  | tag hu hname =>
    cases s with
    | lightweight | annotated =>
      obtain rfl := Option.some.inj hentry
      obtain rfl := Option.some.inj hu
      exact hname
    | _ => cases hu

/-- The step leaves the tip and the work tree alone. -/
lemma rest (hs : h.Irrelevant p s) : (h.apply s).head = h.head ∧ (h.apply s).branch = h.branch ∧
    (h.apply s).clean = h.clean ∧ (h.apply s).failures = h.failures := by
  cases hs with
  | commit | nonCommit => exact ⟨rfl, rfl, rfl, rfl⟩
  | tag hu =>
    cases s with
    | lightweight | annotated => exact ⟨rfl, rfl, rfl, rfl⟩
    | _ => cases hu

/-- The walk up from the tip passes the same commits and finds the same tag. -/
lemma walks (hs : h.Irrelevant p s) (hb : h.Built) (hallowed : s.Allowed h)
    (hlt : (h.apply s).made < 2 ^ 32) (hw : h.Walks p.text tip chain found) :
    (h.apply s).Walks p.text tip chain found where
  head := hs.rest.1.trans hw.head
  parents := firstParents_apply hb.coherent hlt hw.parents
  nearest := by
    have hunused := hs.unused
    cases hs with
    | commit | nonCommit =>
      rw [tagged_apply_of_not hb hallowed hlt hunused (by rintro _ ⟨⟩)]
      exact hw.nearest
    | @tag _ u hu _ hhidden =>
      by_cases hstart : p.text.toList <+: u.name.toList
      · rw [tagged_apply_of_tag? hb hallowed hlt hunused hu hstart]
        exact hhidden.nearest hw hstart
      · rw [tagged_apply_of_not hb hallowed hlt hunused]
        · exact hw.nearest
        · intro v hv
          obtain rfl := Option.some.inj (hu.symm.trans hv)
          exact hstart

end Irrelevant

/-- **Irrelevant steps do not show.** In a history where nothing fails, a commit off the tip, a new
tag that leads to no commit, and a new tag that is hidden leave the outcome as it was. -/
theorem resolve_irrelevant (hb : h.Built) (hfail : h.failures = []) (hallowed : s.Allowed h)
    (hlt : (h.apply s).made < 2 ^ 32) (hs : h.Irrelevant p s) :
    ((h.apply s).repository.resolve p).outcome = (h.repository.resolve p).outcome := by
  obtain ⟨hhead, hbranch, hclean, hfailures⟩ := hs.rest
  cases htip : h.head with
  | none =>
    -- without a tip no tag is looked at
    rw [resolve_of_unborn hfail htip p, resolve_of_unborn (hfailures.trans hfail)
      (hhead.trans htip) p]
  | some tip =>
    obtain ⟨chain, found, hw⟩ := hb.exists_walks htip p.text
    have hw' := hs.walks hb hallowed hlt hw
    have hfound := (isNearest_facts hb.coherent hw.parents.ne_nil p.text).unique hw.nearest
    have hfound' := (isNearest_facts (hb.step hallowed hlt).coherent hw'.parents.ne_nil
      p.text).unique hw'.nearest
    rw [outcome_resolve hfail htip hw.parents p hfound,
      outcome_resolve (hfailures.trans hfail) hw'.head hw'.parents p hfound', hbranch, hclean]

/-- A tag on the side branch that has been merged in is hidden. -/
theorem resolve_irrelevant_merged :
    let s : Step := .annotated "v7" (idOf 3) (some ⟨9, 0⟩)
    merged.Built ∧ merged.failures = [] ∧ s.Allowed merged ∧ (merged.apply s).made < 2 ^ 32 ∧
      merged.Irrelevant .empty s ∧
      ((merged.apply s).repository.resolve .empty).outcome =
        (merged.repository.resolve .empty).outcome ∧
      (merged.repository.resolve .empty).outcome.toOption.map Details.version =
        some "0-1-g1715609" := by
  intro s
  have hallowed : s.Allowed merged := by decide
  have hlt : (merged.apply s).made < 2 ^ 32 := by decide
  have hirrelevant : merged.Irrelevant .empty s := by
    refine .tag rfl (by decide) (.unreached fun tip chain found hw hmem => ?_)
    obtain rfl : idOf 5 = tip := Option.some.inj hw.head
    have hparents : merged.parents? (idOf 5) = some [idOf 1, idOf 3] := by decide
    have hchain : FirstParents merged.parents? (idOf 5) [idOf 5, idOf 1] :=
      .step hparents (.last (by decide))
    obtain rfl := hw.parents.unique hchain
    have hoff : idOf 3 ∉ [idOf 5, idOf 1] := by decide
    exact hoff (List.mem_of_mem_take hmem)
  exact ⟨built_merged, rfl, hallowed, hlt, hirrelevant,
    resolve_irrelevant built_merged rfl hallowed hlt hirrelevant, by decide⟩

end TagVersion.History
