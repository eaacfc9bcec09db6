import TagVersion.Proofs.Describe.Candidates
import TagVersion.Proofs.Resolve.Failure
import TagVersion.Proofs.Resolve.Version

/-!
What resolving a version does to a history: it asks questions, each of which counts, and it does
nothing else. How many they are follows from what the history holds. No question is asked twice,
and none after one that fails.
-/

namespace TagVersion

open Reading Describe

namespace Describe.Facts

variable {f : Facts} {start : String} {chain : List ObjectId}

lemma length_born_of_some {tip : ObjectId} (h : f.head = some tip) (qs : List Query) :
    (f.born qs).length = qs.length := by
  simp [born, h]

lemma nodup_born {qs : List Query} (h : ∀ tip, f.head = some tip → qs.Nodup) :
    (f.born qs).Nodup := by
  unfold born
  split_ifs with hborn
  · obtain ⟨tip, htip⟩ := Option.isSome_iff_exists.mp hborn
    exact h tip htip
  · exact List.nodup_nil

/-- No tag is asked for its time twice, since no tag leads to two commits. -/
lemma nodup_taggers (h : f.tags.Nodup) (c : ObjectId) : (taggers (f.group c)).Nodup := by
  have hsub : ((f.group c).filter fun candidate => candidate.1.target ≠ candidate.2).Sublist
      f.candidates := List.filter_sublist.trans List.filter_sublist
  have hrefs := ((hsub.map Prod.fst).trans f.map_fst_candidates_sublist).nodup h
  have hmap := hrefs.map fun ref ref' heq => Query.tagger.inj heq
  rwa [List.map_map] at hmap

lemma nodup_questions (htags : f.tags.Nodup)
    (hchain : ∀ tip, f.head = some tip → FirstParents f.parents tip chain) (kind : Query.Kind) :
    (f.questions start chain kind).Nodup := by
  cases kind with
  | head | branch => exact List.nodup_singleton _
  | tags | clean => exact nodup_born fun _ _ => List.nodup_singleton _
  | peel => exact nodup_born fun _ _ => htags.map fun ref ref' heq => Query.peel.inj heq
  | parents =>
    refine nodup_born fun tip htip => ?_
    have hwalked := (List.takeWhile_sublist f.untagged).nodup (hchain tip htip).nodup
    exact hwalked.map fun c c' heq => Query.parents.inj heq
  | tagger =>
    refine nodup_born fun _ _ => ?_
    cases (chain.dropWhile f.untagged).head? with
    | none => exact List.nodup_nil
    | some c => exact nodup_taggers htags c

/-- The plan asks nothing twice: within a kind the questions differ, and kinds differ. -/
lemma nodup_resolvePlan (htags : f.tags.Nodup)
    (hchain : ∀ tip, f.head = some tip → FirstParents f.parents tip chain) :
    (f.resolvePlan start chain).Nodup := by
  refine List.nodup_flatMap.mpr ⟨fun kind _ => nodup_questions htags hchain kind, ?_⟩
  have hkinds : Query.Kind.inOrder.Nodup := by decide
  refine hkinds.imp fun {kind kind'} hne q hq hq' => hne ?_
  exact (kind_of_mem_questions hq).symm.trans (kind_of_mem_questions hq')

lemma length_resolvePlan_of_unborn (h : f.head = none) (start : String) (chain : List ObjectId) :
    (f.resolvePlan start chain).length = 2 := by
  simp [resolvePlan, Query.Kind.inOrder, questions, born, h]

/-- Two questions are for the tip and the branch, two for the tags and the state of the work
tree. -/
lemma length_resolvePlan {tip : ObjectId} (h : f.head = some tip) (start : String)
    (chain : List ObjectId) :
    (f.resolvePlan start chain).length = f.tags.length + (chain.takeWhile f.untagged).length +
      (f.questions start chain .tagger).length + 4 := by
  simp only [resolvePlan, Query.Kind.inOrder, List.flatMap_cons, List.flatMap_nil,
    List.length_append, List.length_nil, questions, length_born_of_some h, List.length_map,
    List.length_singleton]
  omega

end Describe.Facts

namespace History

variable {h : History} {start : String} {tip c : ObjectId} {chain : List ObjectId}

/-! ### Counting -/

/-- The number of tags whose name starts with a text. -/
def listed (h : History) (start : String) : Nat :=
  h.tags.countP fun named => start.toList <+: named.1.toList

/-- The number of those that lead to a commit from a tag object. -/
def annotatedOn (h : History) (start : String) (c : ObjectId) : Nat :=
  h.tags.countP fun named =>
    start.toList <+: named.1.toList ∧ h.peel named.2 = some c ∧ named.2 ≠ c

lemma length_refs (h : History) (start : String) : (h.refs start).length = h.listed start := by
  rw [refs, List.length_map, ← List.countP_eq_length_filter, listed]
  exact List.countP_congr fun named _ => by simp [List.isPrefixOf_iff_prefix]

lemma length_taggers (h : History) (start : String) (c : ObjectId) :
    (Facts.taggers ((h.facts start).group c)).length = h.annotatedOn start c := by
  rw [Facts.taggers, List.length_map, ← List.countP_eq_length_filter, Facts.group, onCommit,
    List.countP_filter, Facts.candidates, List.countP_filterMap]
  show (h.refs start).countP _ = _
  rw [refs, List.countP_map, List.countP_filter, annotatedOn]
  refine List.countP_congr fun named _ => ?_
  simp only [Facts.candidate, facts, Function.comp]
  cases h.peel named.2 with
  | none => simp
  | some peeled =>
    simp only [Option.map_some, Option.getD_some, List.isPrefixOf_iff_prefix, Bool.and_eq_true,
      decide_eq_true_eq, Option.some.injEq]
    constructor
    · rintro ⟨⟨hne, rfl⟩, hstart⟩
      exact ⟨hstart, rfl, hne⟩
    · rintro ⟨hstart, rfl, hne⟩
      exact ⟨⟨hne, rfl⟩, hstart⟩

/-- A walk that stops has passed what stands before the commit where it stops. -/
lemma walked_of_stop {before : List ObjectId} (hbefore : ∀ b ∈ before, ¬ h.Carries start b)
    (hc : h.Carries start c) (rest : List ObjectId) :
    (before ++ c :: rest).takeWhile (h.facts start).untagged = before ∧
      (before ++ c :: rest).dropWhile (h.facts start).untagged = c :: rest := by
  have huntagged : ∀ b ∈ before, (h.facts start).untagged b = true := fun b hb =>
    untagged_facts_iff.mpr (hbefore b hb)
  have htagged : ¬ (h.facts start).untagged c = true := by
    rw [untagged_facts_iff, not_not]
    exact hc
  rw [List.takeWhile_append_of_pos huntagged, List.dropWhile_append_of_pos huntagged,
    List.takeWhile_cons_of_neg htagged, List.dropWhile_cons_of_neg htagged, List.append_nil]
  exact ⟨rfl, rfl⟩

/-- The questions if the walk stops at a tag. -/
lemma length_resolvePlan_of_stop {before rest : List ObjectId} (hhead : h.head = some tip)
    (hbefore : ∀ b ∈ before, ¬ h.Carries start b) (hc : h.Carries start c) :
    ((h.facts start).resolvePlan start (before ++ c :: rest)).length =
      h.listed start + before.length + h.annotatedOn start c + 4 := by
  obtain ⟨hwalked, hleft⟩ := walked_of_stop hbefore hc rest
  rw [Facts.length_resolvePlan hhead, hwalked, ← length_refs, ← length_taggers, Facts.questions,
    Facts.length_born_of_some hhead, hleft]
  rfl

/-- The questions if the walk comes to the end of the chain. -/
lemma length_resolvePlan_of_untagged (hhead : h.head = some tip)
    (hnone : ∀ c ∈ chain, ¬ h.Carries start c) :
    ((h.facts start).resolvePlan start chain).length = h.listed start + chain.length + 4 := by
  have huntagged : ∀ c ∈ chain, (h.facts start).untagged c = true := fun c hc =>
    untagged_facts_iff.mpr (hnone c hc)
  have hwalked : chain.takeWhile (h.facts start).untagged = chain :=
    List.takeWhile_eq_self_iff.mpr huntagged
  have hleft : chain.dropWhile (h.facts start).untagged = [] :=
    List.dropWhile_eq_nil_iff.mpr huntagged
  rw [Facts.length_resolvePlan hhead, hwalked, ← length_refs, Facts.questions,
    Facts.length_born_of_some hhead, hleft]
  rfl

/-! ### Failing -/

lemma failure?_answer {α : Type} (h : History) (kind : Query.Kind) (a : α) :
    Outcome.failure? (h.answer kind (.ok a)) = h.injected kind := by
  unfold answer injected
  cases h.failures.lookup kind <;> rfl

/-- A question that resolving asks fails only where its kind was made to fail: the commits whose
parents it asks for are all there. -/
lemma failure?_of_mem_resolvePlan {q : Query}
    (hchain : ∀ tip, h.head = some tip → FirstParents h.parents? tip chain)
    (hq : q ∈ (h.facts start).resolvePlan start chain) :
    h.repository.failure? q = h.injected q.kind := by
  cases q with
  | parents c =>
    obtain ⟨kind, -, hkind⟩ := List.mem_flatMap.mp hq
    obtain rfl : Query.Kind.parents = kind := Facts.kind_of_mem_questions hkind
    obtain ⟨hborn, hmap⟩ := Facts.mem_born_iff.mp hkind
    obtain ⟨tip, htip⟩ := Option.isSome_iff_exists.mp hborn
    have hwalked := (List.mem_map_of_injective fun c c' heq => Query.parents.inj heq).mp hmap
    have hmem : c ∈ chain := (List.takeWhile_prefix _).subset hwalked
    obtain ⟨ps, hps⟩ := (hchain tip htip).parents_of_mem hmem
    have hparents : h.parents c = .ok ps := by simp [parents, show h.commits.lookup c = _ from hps]
    show Outcome.failure? (h.answer .parents (h.parents c)) = _
    rw [hparents]
    exact h.failure?_answer .parents ps
  | _ => exact h.failure?_answer _ _

/-! ### The state of the history -/

/-- A question counts, whether it is answered or fails, and changes nothing else. -/
def enter (h : History) (_ : Query) : History := { h with calls := h.calls + 1 }

lemma foldl_enter (h : History) (qs : List Query) :
    qs.foldl enter h = { h with calls := h.calls + qs.length } := by
  induction qs generalizing h with
  | nil => rfl
  | cons q qs ih =>
    rw [List.foldl_cons, ih, enter, List.length_cons, Nat.add_assoc, Nat.add_comm 1]

/-- **Resolving asks for each fact once and changes nothing.** Every question on the way finds the
history as it was, but for the number of questions. If nothing fails there are two questions before
the first commit. After it they are as many as the tags that are listed, the commits that are
walked and the annotated tags on the commit where the walk stops, and four: the walk does not ask
for the parents of that commit, but it does ask at the end of a chain without a tag. No question is
asked twice, none that is not asked where nothing fails, and none after one that fails. -/
theorem read_resolve (p : Prefix)
    (hchain : ∀ tip, h.head = some tip → FirstParents h.parents? tip chain) :
    let asked := (h.repository.resolve p).asked
    let left := (h.read (h.repository.resolve p)).2
    left = asked.foldl enter h ∧
    (∀ qs, qs <+: asked → qs.foldl enter h = { h with calls := h.calls + qs.length } ∧
      (qs.foldl enter h).repository = h.repository) ∧
    (h.failures = [] →
      (h.head = none → left.calls = h.calls + 2) ∧
      ∀ tip, h.head = some tip →
        (∀ before c rest, chain = before ++ c :: rest →
          (∀ b ∈ before, ¬ h.Carries p.text b) → h.Carries p.text c → left.calls =
            h.calls + (h.listed p.text + before.length + h.annotatedOn p.text c + 4)) ∧
        ∀ d, chain.length = d + 1 → (∀ c ∈ chain, ¬ h.Carries p.text c) →
          left.calls = h.calls + (h.listed p.text + d + 5)) ∧
    (h.tags.Nodup → asked.Nodup) ∧
    asked <+: ({ h with failures := [] }.repository.resolve p).asked ∧
    ∀ before q later e, asked = before ++ q :: later → h.repository.failure? q = some e →
      later = [] := by
  intro asked left
  have hruns := runs_resolve p hchain
  have hcut : asked =
      cut (fun q => h.injected q.kind) ((h.facts p.text).resolvePlan p.text chain) :=
    hruns.asked.trans (cut_map _ _)
  have hpre : asked <+: (h.facts p.text).resolvePlan p.text chain := hcut ▸ cut_prefix _ _
  refine ⟨(h.foldl_enter asked).symm, fun qs _ => ?_, fun hfail => ?_, fun htags => ?_, ?_, ?_⟩
  · rw [foldl_enter]
    exact ⟨rfl, rfl⟩
  · have hasked : asked = (h.facts p.text).resolvePlan p.text chain :=
      (hruns.of_never (by simp [injected, hfail])).1
    have hleft : left.calls =
        h.calls + ((h.facts p.text).resolvePlan p.text chain).length := hasked ▸ rfl
    refine ⟨fun hhead => ?_, fun tip hhead => ⟨?_, ?_⟩⟩
    · rw [hleft, Facts.length_resolvePlan_of_unborn hhead]
    · rintro before c rest rfl hbefore hc
      rw [hleft, length_resolvePlan_of_stop hhead hbefore hc]
    · intro d hd hnone
      rw [hleft, length_resolvePlan_of_untagged hhead hnone, hd]
      omega
  · have hrefs : (h.refs p.text).Nodup := by
      refine (htags.filter _).map fun named named' heq => ?_
      obtain ⟨hname, htarget⟩ := TagRef.mk.inj heq
      exact Prod.ext hname htarget
    exact hpre.sublist.nodup (Facts.nodup_resolvePlan hrefs hchain)
  · have hnever := runs_resolve (h := { h with failures := [] }) p hchain
    rw [(hnever.of_never (by simp [injected])).1]
    exact hpre
  · intro before q later e heq hq
    have hmem : q ∈ asked := by simp [heq]
    rw [failure?_of_mem_resolvePlan hchain (hpre.subset hmem)] at hq
    exact eq_nil_of_cut_eq (hcut.symm.trans heq) (Option.isSome_iff_exists.mpr ⟨e, hq⟩)

/-- A history with two tags of a product and another tag one commit below its tip. One of the two
has a tag object. -/
def product : History :=
  build {} [.commitHead, .annotated "app-1" (idOf 1) none, .lightweight "app-2" (idOf 1),
    .lightweight "3" (idOf 1), .commitHead]

theorem read_resolve_product :
    (∀ tip, product.head = some tip → FirstParents product.parents? tip [idOf 3, idOf 1]) ∧
      (product.read (product.repository.resolve ⟨"app-", by decide⟩)).2.calls = 8 := by
  have hhead : product.head = some (idOf 3) := rfl
  have hchain : ∀ tip, product.head = some tip →
      FirstParents product.parents? tip [idOf 3, idOf 1] := by
    intro tip htip
    obtain rfl : idOf 3 = tip := Option.some.inj (hhead.symm.trans htip)
    have hparents : product.parents? (idOf 3) = some [idOf 1] := by decide
    exact .step hparents (.last (by decide))
  have hbefore : ∀ b ∈ [idOf 3], ¬ product.Carries "app-" b := by
    unfold Carries
    decide
  have hcarries : product.Carries "app-" (idOf 1) := by
    unfold Carries
    decide
  have hlisted : product.listed "app-" = 2 := by decide
  have hannotated : product.annotatedOn "app-" (idOf 1) = 1 := by decide
  obtain ⟨-, -, hcalls, -⟩ := read_resolve ⟨"app-", by decide⟩ hchain
  have hstop := ((hcalls rfl).2 _ hhead).1 [idOf 3] (idOf 1) [] rfl hbefore hcarries
  rw [hlisted, hannotated] at hstop
  exact ⟨hchain, hstop⟩

end History

end TagVersion
