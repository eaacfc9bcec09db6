import TagVersion.Proofs.History.Anchored
import TagVersion.Proofs.Resolve.Version

/-!
Which tags a step of building adds. Of the tags that lead to commits every one stays as it is, as no
tag points at an id that is yet to be made; and a step that makes a tag on a commit adds that one.
-/

namespace TagVersion.History

open Describe

/-- The name that a step puts into use, and what it makes it point at. -/
def Step.added? (h : History) : Step → Option (String × ObjectId)
  | .lightweight name c => some (name, c)
  | .annotated name _ _ => some (name, h.fresh)
  | .nonCommit name => some (name, h.fresh)
  | _ => none

/-- The tag that a step makes, if the tag leads to a commit. -/
def Step.tag? (h : History) : Step → Option Tag
  | .lightweight name c => some ⟨name, c, c, false, none⟩
  | .annotated name c time => some ⟨name, h.fresh, c, true, time⟩
  | _ => none

/-- Whether a step takes no name that is in use. -/
def Step.Unused (h : History) (s : Step) : Prop :=
  ∀ entry, s.added? h = some entry → entry.1 ∉ h.tags.map Prod.fst

/-- All that is known of a tag, if it leads to a commit. -/
def tagOf? (h : History) (entry : String × ObjectId) : Option Tag :=
  (h.peel entry.2).map fun c =>
    { name := entry.1
      target := entry.2
      peeled := c
      annotated := entry.2 ≠ c
      time := if entry.2 = c then none else (h.tagObjects.lookup entry.2).bind (·.2) }

variable {h : History} {s : Step} {start : String} {t : Tag} {entry : String × ObjectId}
  {tip c : ObjectId} {chain : List ObjectId}

lemma tagged_iff : h.Tagged start t ↔
    ∃ entry ∈ h.tags, start.toList <+: entry.1.toList ∧ h.tagOf? entry = some t := by
  constructor
  · rintro ⟨hnamed, hstart, hpeel, hannotated, htime⟩
    refine ⟨_, hnamed, hstart, ?_⟩
    obtain ⟨name, target, peeled, annotated, time⟩ := t
    by_cases heq : target = peeled <;> simp_all [tagOf?]
  · rintro ⟨entry, hentry, hstart, htag⟩
    obtain ⟨peeled, hpeel, rfl⟩ := Option.map_eq_some_iff.mp htag
    exact ⟨hentry, hstart, hpeel, by simp, by by_cases heq : entry.2 = peeled <;> simp [heq]⟩

lemma mem_tags_apply_iff (hunused : s.Unused h) :
    entry ∈ (h.apply s).tags ↔ entry ∈ h.tags ∨ s.added? h = some entry := by
  cases s with
  | lightweight | annotated | nonCommit =>
    exact (mem_insertNamed_iff (hunused _ rfl)).trans
      (or_congr_right (by simp [Step.added?, eq_comm]))
  | commit | commitHead | mergeHead | setHead | checkout | setBranch | setClean | failOn =>
    simp [apply, addCommit, Step.added?]

lemma name_of_tagOf? (htag : h.tagOf? entry = some t) : t.name = entry.1 := by
  obtain ⟨_, -, rfl⟩ := Option.map_eq_some_iff.mp htag
  rfl

/-- The tags that are there stay as they are. -/
lemma tagOf?_apply (ha : h.Anchored) (hlt : (h.apply s).made < 2 ^ 32) (hentry : entry ∈ h.tags) :
    (h.apply s).tagOf? entry = h.tagOf? entry := by
  have hmade := ha.targets entry hentry
  unfold tagOf?
  rw [peel_apply hmade hlt, lookup_tagObjects_apply hmade hlt]

lemma peel_of_mem_ids (hc : c ∈ h.ids) : h.peel c = some c := by
  obtain ⟨⟨c, ps⟩, hmem, rfl⟩ := List.mem_map.mp hc
  unfold peel
  cases hlookup : h.commits.lookup c with
  | some ps => rfl
  | none =>
    rw [List.lookup_eq_none_iff] at hlookup
    simpa using hlookup _ hmem

lemma peel_of_notMem_ids (hc : c ∉ h.ids) : h.peel c = (h.tagObjects.lookup c).map (·.1) := by
  unfold peel
  cases hlookup : h.commits.lookup c with
  | some ps => exact absurd (mem_map_fst_of_lookup hlookup) hc
  | none => rfl

lemma tag?_eq_none (hentry : s.added? h = none) : s.tag? h = none := by
  cases s <;> simp_all [Step.added?, Step.tag?]

/-- What is known of a tag that has just been made. -/
lemma tagOf?_of_added? (hc : h.Coherent) (ha : h.Anchored) (hs : s.Allowed h)
    (hlt : (h.apply s).made < 2 ^ 32) (hentry : s.added? h = some entry) :
    (h.apply s).tagOf? entry = s.tag? h := by
  cases s with
  | lightweight name c =>
    obtain rfl := Option.some.inj hentry
    have hpeel : (h.apply (.lightweight name c)).peel c = some c := peel_of_mem_ids hs
    simp [tagOf?, hpeel, Step.tag?]
  | annotated name c time =>
    obtain rfl := Option.some.inj hentry
    have hfresh : h.fresh ∉ h.ids := hc.fresh_notMem hlt
    have hne : h.fresh ≠ c := fun heq => hfresh (heq ▸ hs)
    have hobject : (h.apply (.annotated name c time)).tagObjects.lookup h.fresh =
        some (c, time) := List.lookup_cons_self
    have hpeel : (h.apply (.annotated name c time)).peel h.fresh = some c := by
      rw [peel_of_notMem_ids (h := h.apply (.annotated name c time)) hfresh, hobject]
      rfl
    simp [tagOf?, hpeel, hobject, hne, Step.tag?]
  | nonCommit name =>
    obtain rfl := Option.some.inj hentry
    have hobject : (h.apply (.nonCommit name)).tagObjects.lookup h.fresh = none :=
      ha.lookup_fresh hlt
    have hpeel : (h.apply (.nonCommit name)).peel h.fresh = none := by
      rw [peel_of_notMem_ids (h := h.apply (.nonCommit name)) (hc.fresh_notMem hlt), hobject]
      rfl
    simp [tagOf?, hpeel, Step.tag?]
  | commit | commitHead | mergeHead | setHead | checkout | setBranch | setClean | failOn =>
    cases hentry

/-- **A step adds the tag that it makes,** and leaves the others as they are. -/
theorem tagged_apply_iff (hb : h.Built) (hs : s.Allowed h) (hlt : (h.apply s).made < 2 ^ 32)
    (hunused : s.Unused h) : (h.apply s).Tagged start t ↔
      h.Tagged start t ∨ s.tag? h = some t ∧ start.toList <+: t.name.toList := by
  rw [tagged_iff, tagged_iff]
  constructor
  · rintro ⟨entry, hentry, hstart, htag⟩
    rcases (mem_tags_apply_iff hunused).mp hentry with hold | hnew
    · exact .inl ⟨entry, hold, hstart, (tagOf?_apply hb.anchored hlt hold).symm.trans htag⟩
    · have hname := name_of_tagOf? htag
      rw [tagOf?_of_added? hb.coherent hb.anchored hs hlt hnew] at htag
      exact .inr ⟨htag, hname ▸ hstart⟩
  · rintro (⟨entry, hold, hstart, htag⟩ | ⟨htag, hstart⟩)
    · exact ⟨entry, (mem_tags_apply_iff hunused).mpr (.inl hold), hstart,
        (tagOf?_apply hb.anchored hlt hold).trans htag⟩
    · cases hentry : s.added? h with
      | none => simp [tag?_eq_none hentry] at htag
      | some entry =>
        have htag' := (tagOf?_of_added? hb.coherent hb.anchored hs hlt hentry).trans htag
        exact ⟨entry, (mem_tags_apply_iff hunused).mpr (.inr hentry),
          name_of_tagOf? htag' ▸ hstart, htag'⟩

lemma tagged_apply_of_not (hb : h.Built) (hs : s.Allowed h) (hlt : (h.apply s).made < 2 ^ 32)
    (hunused : s.Unused h) (hnot : ∀ u, s.tag? h = some u → ¬ start.toList <+: u.name.toList) :
    (h.apply s).tagged start = h.tagged start := by
  ext t
  exact (tagged_apply_iff hb hs hlt hunused).trans (or_iff_left fun hnew => hnot t hnew.1 hnew.2)

lemma tagged_apply_of_tag? (hb : h.Built) (hs : s.Allowed h) (hlt : (h.apply s).made < 2 ^ 32)
    (hunused : s.Unused h) (htag : s.tag? h = some t) (hstart : start.toList <+: t.name.toList) :
    (h.apply s).tagged start = insert t (h.tagged start) := by
  ext u
  refine (tagged_apply_iff hb hs hlt hunused).trans ?_
  rw [htag, Set.mem_insert_iff, or_comm, Option.some_inj]
  refine or_congr_left ⟨fun hnew => hnew.1.symm, ?_⟩
  rintro rfl
  exact ⟨rfl, hstart⟩

/-! ### Walking up from the tip -/

/-- The commits that lie on the first parents of the tip, and which tag is the nearest there. -/
structure Walks (h : History) (start : String) (tip : ObjectId) (chain : List ObjectId)
    (found : Option Tag × Nat) : Prop where
  head : h.head = some tip
  parents : FirstParents h.parents? tip chain
  nearest : IsNearest (h.tagged start) chain found

lemma Built.exists_walks (hb : h.Built) (hhead : h.head = some tip) (start : String) :
    ∃ chain found, h.Walks start tip chain found := by
  obtain ⟨chain, hchain⟩ := hb.coherent.firstParents hhead
  exact ⟨chain, _, hhead, hchain, isNearest_facts hb.coherent hchain.ne_nil start⟩

lemma Walks.unique {tip' : ObjectId} {chain' : List ObjectId} {found found' : Option Tag × Nat}
    (hw : h.Walks start tip chain found) (hw' : h.Walks start tip' chain' found') :
    tip = tip' ∧ chain = chain' ∧ found = found' := by
  obtain rfl : tip = tip' := Option.some.inj (hw.head.symm.trans hw'.head)
  obtain rfl := hw.parents.unique hw'.parents
  exact ⟨rfl, rfl, hw.nearest.unique hw'.nearest⟩

lemma firstParents_apply (hc : h.Coherent) (hlt : (h.apply s).made < 2 ^ 32)
    (hchain : FirstParents h.parents? tip chain) : FirstParents (h.apply s).parents? tip chain :=
  hchain.mono fun _ _ => parents?_apply hc hlt

end TagVersion.History
