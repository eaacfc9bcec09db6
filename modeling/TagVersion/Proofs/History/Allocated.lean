import Mathlib.Data.List.Induction
import TagVersion.Proofs.ObjectId
import TagVersion.Proofs.Resolve.Steps

/-!
What steps of building put down, over any sequence of them. Every id is made once, commits and tag
objects share none, and a commit comes after its parents; the tip is a commit; and which kind of
step made a tag can be told from where the tag leads. So the walk from the tip along first parents
ends, at a commit less far off than the commits are many.
-/

namespace TagVersion.History

open Describe Repository

/-! ### What a step adds -/

/-- Whether a step makes an id. -/
def Step.makesId : Step → Bool
  | .commit _ | .commitHead | .mergeHead _ | .annotated _ _ _ | .nonCommit _ => true
  | .setHead _ | .checkout _ | .setBranch _ | .setClean _ | .lightweight _ _ | .failOn _ _ => false

/-- The id that a step makes, if it makes one. -/
def Step.id? (h : History) (s : Step) : Option ObjectId := if s.makesId then some h.fresh else none

/-- The parents of the commit that a step makes, if it makes one. -/
def Step.parents? (h : History) : Step → Option (List ObjectId)
  | .commit parents => some parents
  | .commitHead => some h.head.toList
  | .mergeHead other => some (h.head.toList ++ [other])
  | _ => none

/-- What the tag object that a step makes holds, if it makes one. -/
def Step.object? : Step → Option (ObjectId × Option Instant)
  | .annotated _ c time => some (c, time)
  | _ => none

/-- The name of the tag that a step makes, if it makes one. -/
def Step.name? : Step → Option String
  | .lightweight name _ | .annotated name _ _ | .nonCommit name => some name
  | _ => none

/-- The tag objects that have been made, newest first. -/
def objectIds (h : History) : List ObjectId := h.tagObjects.map Prod.fst

/-- The ids that steps make, one after the other. -/
def idsMade (h : History) : List Step → List ObjectId
  | [] => []
  | s :: steps => (s.id? h).toList ++ (h.apply s).idsMade steps

/-- Whether steps only speak of commits that have been made when their turn comes. -/
def Allows (h : History) : List Step → Prop
  | [] => True
  | s :: steps => s.Allowed h ∧ (h.apply s).Allows steps

instance : ∀ (h : History) (steps : List Step), Decidable (h.Allows steps)
  | _, [] => inferInstanceAs (Decidable True)
  | h, s :: steps =>
    have := instDecidableAllows (h.apply s) steps
    inferInstanceAs (Decidable (_ ∧ _))

/-- The step that made the tag of a name: the last one to make a tag of that name. -/
def maker? (steps : List Step) (name : String) : Option Step :=
  steps.reverse.find? fun s => s.name? = some name

variable {h : History} {s : Step} {steps : List Step} {made : List ObjectId} {c id : ObjectId}
  {name : String}

lemma made_apply (h : History) (s : Step) :
    (h.apply s).made = h.made + if s.makesId then 1 else 0 := by
  cases s <;> rfl

lemma commits_apply (h : History) (s : Step) :
    (h.apply s).commits = ((s.parents? h).map (h.fresh, ·)).toList ++ h.commits := by
  cases s <;> rfl

lemma ids_apply (h : History) (s : Step) :
    (h.apply s).ids = ((s.parents? h).map fun _ => h.fresh).toList ++ h.ids := by
  cases s <;> rfl

lemma objectIds_apply (h : History) (s : Step) :
    (h.apply s).objectIds = (s.object?.map fun _ => h.fresh).toList ++ h.objectIds := by
  cases s <;> rfl

lemma id?_of_parents? {ps : List ObjectId} (hps : s.parents? h = some ps) :
    s.id? h = some h.fresh := by
  cases s <;> simp_all [Step.parents?, Step.id?, Step.makesId]

lemma id?_of_object? {object : ObjectId × Option Instant} (hobject : s.object? = some object) :
    s.id? h = some h.fresh := by
  cases s <;> simp_all [Step.object?, Step.id?, Step.makesId]

lemma parents?_of_object? {object : ObjectId × Option Instant} (hobject : s.object? = some object) :
    s.parents? h = none := by
  cases s <;> simp_all [Step.object?, Step.parents?]

lemma name?_eq (h : History) (s : Step) : s.name? = (s.added? h).map Prod.fst := by
  cases s <;> rfl

lemma tags_apply_of_added? {entry : String × ObjectId} (hentry : s.added? h = some entry) :
    (h.apply s).tags = insertNamed entry.1 entry.2 h.tags := by
  cases s with
  | lightweight | annotated | nonCommit =>
    obtain rfl := Option.some.inj hentry
    rfl
  | commit | commitHead | mergeHead | setHead | checkout | setBranch | setClean | failOn =>
    cases hentry

lemma tags_apply_of_not_added? (hentry : s.added? h = none) : (h.apply s).tags = h.tags := by
  cases s <;> first | rfl | cases hentry

/-- A commit is made on commits that are there. -/
lemma parents?_subset (hc : h.Coherent) (hs : s.Allowed h) {ps : List ObjectId}
    (hps : s.parents? h = some ps) : ps ⊆ h.ids := by
  cases s with
  | commit parents =>
    obtain rfl := Option.some.inj hps
    exact hs
  | commitHead =>
    obtain rfl := Option.some.inj hps
    exact hc.head_subset
  | mergeHead other =>
    obtain rfl := Option.some.inj hps
    exact List.append_subset.mpr ⟨hc.head_subset, List.cons_subset.mpr ⟨hs, List.nil_subset _⟩⟩
  | setHead | checkout | setBranch | setClean | lightweight | annotated | nonCommit | failOn =>
    cases hps

lemma makesId_of_id? (hid : s.id? h = some id) : s.makesId = true := by
  by_contra hnot
  simp [Step.id?, hnot] at hid

/-- An id that has been made becomes no commit later. -/
lemma mem_ids_apply_iff (hm : h.Made id) (hlt : (h.apply s).made < 2 ^ 32) :
    id ∈ (h.apply s).ids ↔ id ∈ h.ids := by
  rw [ids_apply]
  cases hps : s.parents? h with
  | none => exact Iff.rfl
  | some ps =>
    have hmakes := makesId_of_id? (id?_of_parents? hps)
    rw [made_apply, if_pos hmakes] at hlt
    simp [hm.ne_fresh hlt]

/-! ### Sequences of steps -/

lemma build_append_singleton (h : History) (steps : List Step) (s : Step) :
    h.build (steps ++ [s]) = (h.build steps).apply s := by
  simp [build]

lemma idsMade_append_singleton (h : History) (steps : List Step) (s : Step) :
    h.idsMade (steps ++ [s]) = h.idsMade steps ++ (s.id? (h.build steps)).toList := by
  induction steps generalizing h with
  | nil => simp [idsMade, build]
  | cons first steps ih =>
    show _ ++ (h.apply first).idsMade (steps ++ [s]) = _
    rw [ih, ← List.append_assoc]
    rfl

lemma allows_append_singleton_iff : h.Allows (steps ++ [s]) ↔
    h.Allows steps ∧ s.Allowed (h.build steps) := by
  induction steps generalizing h with
  | nil => simp [Allows, build]
  | cons first steps ih =>
    show _ ∧ (h.apply first).Allows (steps ++ [s]) ↔ (_ ∧ _) ∧ _
    rw [ih, and_assoc]
    rfl

lemma made_build (h : History) (steps : List Step) :
    (h.build steps).made = h.made + steps.countP Step.makesId := by
  induction steps using List.reverseRecOn with
  | nil => rfl
  | append_singleton steps s ih =>
    rw [build_append_singleton, made_apply, ih, List.countP_append, List.countP_singleton]
    omega

lemma maker?_append_singleton (steps : List Step) (s : Step) (name : String) :
    maker? (steps ++ [s]) name = if s.name? = some name then some s else maker? steps name := by
  unfold maker?
  rw [List.reverse_append, List.reverse_singleton, List.singleton_append, List.find?_cons]
  by_cases hname : s.name? = some name <;> simp [hname]

/-- What holds of a history and the ids that have been made on the way to it, in order. -/
structure Allocated (made : List ObjectId) (h : History) : Prop where
  known : ∀ id ∈ made, h.Made id
  nodup : made.Nodup
  commits : h.ids ⊆ made
  objects : h.objectIds ⊆ made
  apart : h.ids.Disjoint h.objectIds
  parents : ∀ c ps, h.parents? c = some ps → ∀ p ∈ ps, [p, c].Sublist made

namespace Allocated

lemma nodup_apply (ha : Allocated made h) (hlt : (h.apply s).made < 2 ^ 32) :
    (made ++ (s.id? h).toList).Nodup := by
  by_cases hmakes : s.makesId = true
  · rw [made_apply, if_pos hmakes] at hlt
    have hfresh : h.fresh ∉ made := fun hmem => (ha.known _ hmem).ne_fresh hlt rfl
    rw [Step.id?, if_pos hmakes]
    exact ha.nodup.append (List.nodup_singleton _) (List.disjoint_singleton.mpr hfresh)
  · simpa [Step.id?, hmakes] using ha.nodup

lemma apart_apply (ha : Allocated made h) (hc : h.Coherent) (hlt : (h.apply s).made < 2 ^ 32) :
    (h.apply s).ids.Disjoint (h.apply s).objectIds := by
  rw [objectIds_apply]
  cases hobject : s.object? with
  | none =>
    intro id hcommit hold
    exact ha.apart ((mem_ids_apply_iff (ha.known _ (ha.objects hold)) hlt).mp hcommit) hold
  | some object =>
    have hmakes := makesId_of_id? (id?_of_object? (h := h) hobject)
    rw [made_apply, if_pos hmakes] at hlt
    rw [ids_apply, parents?_of_object? hobject]
    exact List.disjoint_cons_right.mpr ⟨hc.fresh_notMem hlt, ha.apart⟩

/-- The commit that a step makes comes after its parents. -/
lemma parents_apply (ha : Allocated made h) (hc : h.Coherent) (hs : s.Allowed h)
    {ps : List ObjectId} (hps : (h.apply s).parents? c = some ps) {p : ObjectId} (hp : p ∈ ps) :
    [p, c].Sublist (made ++ (s.id? h).toList) := by
  unfold History.parents? at hps
  rw [commits_apply] at hps
  cases hnew : s.parents? h with
  | none =>
    rw [hnew] at hps
    exact (ha.parents c ps hps p hp).trans (List.sublist_append_left _ _)
  | some qs =>
    rw [hnew] at hps
    change List.lookup c ((h.fresh, qs) :: h.commits) = some ps at hps
    by_cases hfresh : c = h.fresh
    · subst hfresh
      obtain rfl : qs = ps := by simpa using hps
      have hmem : p ∈ made := ha.commits (parents?_subset hc hs hnew hp)
      rw [id?_of_parents? hnew]
      exact (List.singleton_sublist.mpr hmem).append (List.Sublist.refl _)
    · rw [List.lookup_cons, beq_false_of_ne hfresh] at hps
      exact (ha.parents c ps hps p hp).trans (List.sublist_append_left _ _)

lemma apply (ha : Allocated made h) (hc : h.Coherent) (hs : s.Allowed h)
    (hlt : (h.apply s).made < 2 ^ 32) :
    Allocated (made ++ (s.id? h).toList) (h.apply s) := by
  refine ⟨fun id hid => ?_, ha.nodup_apply hlt, ?_, ?_, ha.apart_apply hc hlt,
    fun c ps hps p hp => ha.parents_apply hc hs hps hp⟩
  · rcases List.mem_append.mp hid with hold | hnew
    · exact (ha.known id hold).mono (h.made_le_apply s)
    · have hid : s.id? h = some id := by simpa using hnew
      obtain ⟨hmakes, rfl⟩ : s.makesId = true ∧ h.fresh = id := by simpa [Step.id?] using hid
      exact made_fresh (by rw [made_apply, if_pos hmakes])
  · rw [ids_apply]
    cases hps : s.parents? h with
    | none => exact List.subset_append_of_subset_left _ ha.commits
    | some ps =>
      rw [id?_of_parents? hps]
      exact List.cons_subset.mpr ⟨by simp, List.subset_append_of_subset_left _ ha.commits⟩
  · rw [objectIds_apply]
    cases hobject : s.object? with
    | none => exact List.subset_append_of_subset_left _ ha.objects
    | some object =>
      rw [id?_of_object? hobject]
      exact List.cons_subset.mpr ⟨by simp, List.subset_append_of_subset_left _ ha.objects⟩

end Allocated

/-- A tag points at a commit just if the step that made it says so. -/
def Attributed (steps : List Step) (h : History) : Prop :=
  ∀ named ∈ h.tags,
    (named.2 ∈ h.ids ↔ ∃ c, maker? steps named.1 = some (.lightweight named.1 c))

/-- What a tag that has just been made points at is a commit just if the step says so. -/
lemma mem_ids_of_added?_iff (hc : h.Coherent) (hs : s.Allowed h) (hlt : (h.apply s).made < 2 ^ 32)
    {named : String × ObjectId} (hnamed : s.added? h = some named) :
    named.2 ∈ (h.apply s).ids ↔ ∃ c, s = .lightweight named.1 c := by
  cases s with
  | lightweight name c =>
    obtain rfl := Option.some.inj hnamed
    exact iff_of_true hs ⟨c, rfl⟩
  | annotated name c time =>
    obtain rfl := Option.some.inj hnamed
    exact iff_of_false (hc.fresh_notMem hlt) nofun
  | nonCommit name =>
    obtain rfl := Option.some.inj hnamed
    exact iff_of_false (hc.fresh_notMem hlt) nofun
  | commit | commitHead | mergeHead | setHead | checkout | setBranch | setClean | failOn =>
    cases hnamed

/-- After a step a name stands for what the step has made under it, or for what it stood for. -/
lemma mem_tags_apply (hc : (h.apply s).Coherent) {named : String × ObjectId}
    (hnamed : named ∈ (h.apply s).tags) :
    s.added? h = some named ∨ s.name? ≠ some named.1 ∧ named ∈ h.tags := by
  rw [name?_eq h s]
  cases hadded : s.added? h with
  | none => exact .inr ⟨by simp, tags_apply_of_not_added? hadded ▸ hnamed⟩
  | some entry =>
    have htags := tags_apply_of_added? hadded
    rcases mem_of_mem_insertNamed (htags ▸ hnamed) with hold | rfl
    · by_cases hname : entry.1 = named.1
      · have hentry : entry ∈ (h.apply s).tags := htags ▸ mem_insertNamed_self
        exact .inl (congrArg some (List.inj_on_of_nodup_map hc.nodup_names hentry hnamed hname))
      · exact .inr ⟨by simpa using hname, hold⟩
    · exact .inl rfl

lemma Attributed.apply (ht : Attributed steps h) (ha : h.Anchored) (hc : h.Coherent)
    (hs : s.Allowed h) (hlt : (h.apply s).made < 2 ^ 32) :
    Attributed (steps ++ [s]) (h.apply s) := by
  intro named hnamed
  rw [maker?_append_singleton]
  -- A tag that stays keeps its maker, and what it leads to becomes no commit.
  rcases mem_tags_apply (hc.apply hs hlt) hnamed with hnew | ⟨hname, hold⟩
  · have hname : s.name? = some named.1 := by rw [name?_eq h s, hnew, Option.map_some]
    rw [if_pos hname, mem_ids_of_added?_iff hc hs hlt hnew]
    simp
  · rw [if_neg hname, mem_ids_apply_iff (ha.targets named hold) hlt]
    exact ht named hold

lemma Anchored.peel_eq_self_iff (ha : h.Anchored) : h.peel id = some id ↔ id ∈ h.ids :=
  ⟨ha.mem_ids_of_peel, peel_of_mem_ids⟩

/-- **What steps put down** is in order, and told by the steps. -/
theorem build_allocated (hsteps : Allows {} steps) (hfew : steps.countP Step.makesId < 2 ^ 32) :
    Built (build {} steps) ∧ Allocated (idsMade {} steps) (build {} steps) ∧
      Attributed steps (build {} steps) := by
  induction steps using List.reverseRecOn with
  | nil =>
    refine ⟨.empty, ⟨?_, List.nodup_nil, ?_, ?_, ?_, ?_⟩, ?_⟩ <;>
      simp [idsMade, build, ids, objectIds, History.parents?, Attributed]
  | append_singleton steps s ih =>
    obtain ⟨hsteps, hs⟩ := allows_append_singleton_iff.mp hsteps
    have hlt : ((build {} steps).apply s).made < 2 ^ 32 := by
      rw [← build_append_singleton, made_build]
      exact (Nat.zero_add _).trans_lt hfew
    rw [List.countP_append] at hfew
    obtain ⟨hbuilt, hallocated, htags⟩ := ih hsteps (by omega)
    rw [build_append_singleton, idsMade_append_singleton]
    exact ⟨hbuilt.step hs hlt, hallocated.apply hbuilt.coherent hs hlt,
      htags.apply hbuilt.anchored hbuilt.coherent hs hlt⟩

/-! ### The walk from the tip -/

/-- A description tells without a loss how many steps are walked, and these are fewer than the
commits. -/
structure Counts (h : History) (start : String) (d : Description) : Prop where
  exact : ∃ chain found, FirstParents h.repository.parents? d.head chain ∧
    IsNearest (h.repository.tagged (h.tags.map fun named => ⟨named.1, named.2⟩) start) chain found ∧
    d.distance.toNat = found.2
  lt : d.distance.toNat < h.commits.length

/-- A history built is described, and the steps are counted. -/
lemma describe_of_built (hb : h.Built) (hfail : h.failures = []) (start : String) :
    ∃ d, (h.repository.describe start).outcome = .ok d ∧ (d = none ↔ h.head = none) ∧
      ∀ description ∈ d, h.Counts start description := by
  have hanswers := answers_history hb.coherent hfail
  have hanswer : h.repository.head = .ok h.head := by
    show h.answer .head (.ok h.head) = _
    simp [answer, hfail]
  cases hhead : h.head with
  | none =>
    exact ⟨none, describe_of_no_tip (hanswer.trans (congrArg Except.ok hhead)) start, by simp⟩
  | some tip =>
    rw [hhead] at hanswer
    obtain ⟨chain, hchain⟩ := hanswers.ends tip hanswer
    obtain ⟨found, hfound, hout⟩ := describe_of_tip hanswers hanswer hchain start
    have hle : chain.length ≤ h.repository.commits.length := hchain.length_le fun c ps hps =>
      h.repository.mem_commits c ps (Outcome.toOption_eq_some_iff.mp hps)
    have hlen : h.repository.commits.length = h.commits.length := List.length_map _
    have hlt : found.2 < h.commits.length := hfound.lt_length.trans_le (hle.trans_eq hlen)
    have hsize := hlt.trans (hb.coherent.size.trans_lt hb.made_lt)
    have hexact := toNat_distance_describedBy hsize tip
    refine ⟨_, hout, by simp, fun description hmem => ?_⟩
    obtain rfl := Option.some.inj hmem
    exact ⟨⟨chain, found, hchain, hfound, hexact⟩, hexact.trans_lt hlt⟩

lemma length_text_idOf (number : Nat) : (idOf number).text.length = 40 := by
  rw [text_idOf, String.length_ofList]
  simp [idDigits]

/-- What holds of the history that steps build from the empty one. -/
structure Sound (steps : List Step) : Prop where
  /-- The ids that steps make are all different. -/
  distinct : (idsMade {} steps).Nodup
  /-- They have forty digits each, and read as ids. -/
  digits : ∀ id ∈ idsMade {} steps,
    id.text.length = 40 ∧ ObjectId.ofText id.text = .ok id
  /-- Commits and tag objects are among them, and nothing is both. -/
  apart : (build {} steps).ids ⊆ idsMade {} steps ∧
    (build {} steps).objectIds ⊆ idsMade {} steps ∧
    (build {} steps).ids.Disjoint (build {} steps).objectIds
  /-- Each parent of a commit is a commit, and was made before it. -/
  parents : ∀ c ps, (build {} steps).parents? c = some ps → ∀ p ∈ ps,
    p ∈ (build {} steps).ids ∧ [p, c].Sublist (idsMade {} steps)
  /-- The tip, if there is one, is a commit. -/
  head : ∀ tip ∈ (build {} steps).head, tip ∈ (build {} steps).ids
  /-- A tag leads straight to what it points at just if it was made to do so. -/
  plain : ∀ name target, (name, target) ∈ (build {} steps).tags →
    ((build {} steps).peel target = some target ↔
      ∃ c, maker? steps name = some (.lightweight name c))
  /-- Where nothing is made to fail, describing the tip comes to an end without a failure, and the
  steps are counted; they are fewer than the commits, and even those could be counted. -/
  described : (build {} steps).failures = [] → ∀ start,
    ∃ d, ((build {} steps).repository.describe start).outcome = .ok d ∧
      (d = none ↔ (build {} steps).head = none) ∧
      ∀ description ∈ d, (build {} steps).Counts start description
  counted : (build {} steps).commits.length < Description.distanceBound

/-- **What steps build is sound,** if they speak only of commits that are there and make fewer ids
than there are numbers of eight digits. -/
theorem build_sound (hsteps : Allows {} steps) (hfew : steps.countP Step.makesId < 2 ^ 32) :
    Sound steps := by
  obtain ⟨hbuilt, hallocated, htags⟩ := build_allocated hsteps hfew
  have hcoherent := hbuilt.coherent
  refine ⟨hallocated.nodup, fun id hid => ?_,
    ⟨hallocated.commits, hallocated.objects, hallocated.apart⟩, fun c ps hps p hp => ?_,
    fun tip htip => hcoherent.head tip htip, fun name target hnamed => ?_,
    fun hfail start => describe_of_built hbuilt hfail start, ?_⟩
  · obtain ⟨number, -, rfl⟩ := hallocated.known id hid
    exact ⟨length_text_idOf number, ObjectId.ofText_text _⟩
  · exact ⟨hcoherent.grown.mem_of_parent hps hp, hallocated.parents c ps hps p hp⟩
  · rw [hbuilt.anchored.peel_eq_self_iff]
    exact htags (name, target) hnamed
  · exact hcoherent.size.trans_lt hbuilt.made_lt

/-- Steps that give a name to a commit, then to a tag object, and make a merge at the tip. -/
def retagging : List Step :=
  [.commitHead, .lightweight "v1" (idOf 1), .commit [], .annotated "v1" (idOf 2) none,
    .lightweight "v2" (idOf 2), .nonCommit "v3", .mergeHead (idOf 2)]

theorem build_sound_retagging :
    Allows {} retagging ∧ retagging.countP Step.makesId < 2 ^ 32 ∧ Sound retagging ∧
      (build {} retagging).peel (idOf 3) = some (idOf 2) ∧
      (build {} retagging).peel (idOf 2) = some (idOf 2) := by
  have hsteps : Allows {} retagging := by decide
  have hfew : retagging.countP Step.makesId < 2 ^ 32 := by decide
  have hsound := build_sound hsteps hfew
  have hplain := (hsound.plain "v2" (idOf 2) (by decide)).mpr ⟨idOf 2, rfl⟩
  exact ⟨hsteps, hfew, hsound, rfl, hplain⟩

end TagVersion.History
