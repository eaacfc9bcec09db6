import TagVersion.Proofs.Describe.Plan
import TagVersion.Proofs.History.Built

/-!
What resolving a version asks, kind by kind: the questions of one kind are asked one after the
other, and the kinds follow each other in a fixed order. `runs_resolve` says so of every repository
that tells some facts, and `History.runs_resolve` of every history.
-/

namespace TagVersion

open Reading Describe

/-- The order in which kinds of questions are asked. -/
def Query.Kind.inOrder : List Query.Kind := [.head, .tags, .peel, .parents, .tagger, .clean, .branch]

namespace Describe.Facts

/-- Some questions, if there is a tip. -/
def born (f : Facts) (questions : List Query) : List Query :=
  if f.head.isSome then questions else []

/-- The questions of a kind that resolving asks. -/
def questions (f : Facts) (start : String) (chain : List ObjectId) : Query.Kind → List Query
  | .head => [.head]
  | .tags => f.born [.tags start]
  | .peel => f.born (f.tags.map .peel)
  | .parents => f.born ((chain.takeWhile f.untagged).map .parents)
  | .tagger => f.born (((chain.dropWhile f.untagged).head?.map fun c => taggers (f.group c)).getD [])
  | .clean => f.born [.clean]
  | .branch => [.branch]

/-- All questions that resolving asks, in order. -/
def resolvePlan (f : Facts) (start : String) (chain : List ObjectId) : List Query :=
  Query.Kind.inOrder.flatMap (f.questions start chain)

variable {f : Facts} {start : String} {chain : List ObjectId} {q : Query} {kind : Query.Kind}

lemma mem_born_iff {qs : List Query} : q ∈ f.born qs ↔ f.head.isSome ∧ q ∈ qs := by
  unfold born
  split_ifs with h <;> simp [h]

lemma kind_of_mem_questions (h : q ∈ f.questions start chain kind) : q.kind = kind := by
  cases kind with
  | head | branch => simp_all [questions, Query.kind]
  | tags | clean =>
    have hq := (mem_born_iff.mp h).2
    simp_all [Query.kind]
  | peel | parents =>
    obtain ⟨x, -, rfl⟩ := List.mem_map.mp (mem_born_iff.mp h).2
    rfl
  | tagger =>
    have hq := (mem_born_iff.mp h).2
    cases hdrop : (chain.dropWhile f.untagged).head? with
    | none => simp [hdrop] at hq
    | some c =>
      rw [hdrop] at hq
      obtain ⟨candidate, -, rfl⟩ := List.mem_map.mp hq
      rfl

/-- The plan is that of describing the tip, then the rest. -/
lemma resolvePlan_eq (f : Facts) (start : String) (chain : List ObjectId) :
    f.resolvePlan start chain = f.describePlan start chain ++ (f.born [.clean] ++ [.branch]) := by
  unfold resolvePlan Query.Kind.inOrder describePlan walkPlan
  cases hhead : f.head with
  | none => simp [questions, born, hhead]
  | some tip => cases hdrop : chain.dropWhile f.untagged <;> simp [questions, born, hhead, hdrop]

end Describe.Facts

variable {fails : Query → Option Repository.Failure} {r : Repository} {p : Prefix} {f : Facts}

/-- **Resolving a tip whose first parents come to an end** asks the plan that the facts make and
comes to the details of the description that they make. -/
theorem runs_resolve (h : Tells fails r p.text f) {chain : List ObjectId} {clean : Bool}
    {branch : String} (hchain : ∀ tip, f.head = some tip → FirstParents f.parents tip chain)
    (hclean : r.clean = verdict fails [.clean] (.ok clean))
    (hbranch : r.branch = verdict fails [.branch] (.ok branch)) :
    Runs (fun q => (fails q).map VersionError.repository) (r.resolve p)
      (f.resolvePlan p.text chain)
      (Details.ofDescription p (f.description chain) clean branch) := by
  have hdescribe := (runs_describe h hchain).mapError VersionError.repository
  have haskClean := (r.runs_ask hclean).mapError VersionError.repository
  have haskBranch := (r.runs_ask hbranch).mapError VersionError.repository
  have hlast : ∀ result : Except VersionError Details,
      Runs (fun q => (fails q).map VersionError.repository) (do
        let details ← Reading.ofExcept result
        Reading.log ⟨.debug, "gitversion::version"⟩
        return details) [] result := by
    intro result
    cases result with
    | error e => exact ⟨rfl, rfl⟩
    | ok details => exact ⟨rfl, rfl⟩
  rw [Facts.resolvePlan_eq]
  unfold Repository.resolve
  refine hdescribe.bind ?_
  cases hhead : f.head with
  | none =>
    have hnone : f.description chain = none := by simp [Facts.description, hhead]
    have hborn : f.born [.clean] = [] := by simp [Facts.born, hhead]
    rw [hnone, hborn]
    -- without a tip, whether the tree is clean makes no difference
    refine (Runs.pure false).bind ?_
    rw [← List.append_nil [Query.branch]]
    exact haskBranch.bind (hlast (Details.ofDescription p none clean branch))
  | some tip =>
    obtain ⟨d, hd⟩ : ∃ d, f.description chain = some d := by simp [Facts.description, hhead]
    have hborn : f.born [.clean] = [.clean] := by simp [Facts.born, hhead]
    rw [hd, hborn]
    refine haskClean.bind ?_
    rw [← List.append_nil [Query.branch]]
    exact haskBranch.bind (hlast (Details.ofDescription p (some d) clean branch))

namespace History

variable {h : History} {start : String} {chain : List ObjectId}

/-- The tags of a history whose name starts with a text. -/
def refs (h : History) (start : String) : List TagRef :=
  (h.tags.filter fun named => start.toList.isPrefixOf named.1.toList).map fun named =>
    ⟨named.1, named.2⟩

lemma mem_refs_iff {ref : TagRef} :
    ref ∈ h.refs start ↔ (ref.name, ref.target) ∈ h.tags ∧ start.toList <+: ref.name.toList := by
  obtain ⟨name, target⟩ := ref
  simp only [refs, List.mem_map, List.mem_filter, TagRef.mk.injEq, List.isPrefixOf_iff_prefix]
  constructor
  · rintro ⟨⟨name, target⟩, hnamed, rfl, rfl⟩
    exact hnamed
  · rintro hnamed
    exact ⟨(name, target), hnamed, rfl, rfl⟩

/-- What a history holds. -/
def facts (h : History) (start : String) : Facts where
  head := h.head
  tags := h.refs start
  lead ref := h.peel ref.target
  parents := h.parents?
  time ref := (h.tagObjects.lookup ref.target).bind (·.2)

@[simp] lemma head_facts (h : History) (start : String) : (h.facts start).head = h.head := rfl

/-- The failure of a question, if questions of its kind fail. -/
def injected (h : History) (kind : Query.Kind) : Option Repository.Failure :=
  (h.failures.lookup kind).map fun code =>
    .operation (operation kind) "injected failure" (some code)

lemma answer_eq_verdict {α : Type} (h : History) (q : Query) (a : α) :
    h.answer q.kind (.ok a) = verdict (fun q => h.injected q.kind) [q] (.ok a) := by
  unfold answer verdict injected
  cases hlookup : h.failures.lookup q.kind <;> simp [hlookup]

/-- A history tells what it holds, but for the kinds of questions that fail. -/
lemma tells_facts (h : History) (start : String) :
    Tells (fun q => h.injected q.kind) h.repository start (h.facts start) where
  head := h.answer_eq_verdict .head _
  tags := h.answer_eq_verdict (.tags start) _
  peel t _ := h.answer_eq_verdict (.peel t) _
  parents c ps hc := by
    have hparents : h.parents c = .ok ps := by simp [parents, show h.commits.lookup c = _ from hc]
    show h.answer .parents (h.parents c) = _
    rw [hparents]
    exact h.answer_eq_verdict (.parents c) ps
  tagger t _ := h.answer_eq_verdict (.tagger t) _
  commits c ps hc := List.mem_map.mpr ⟨_, mem_of_lookup hc, rfl⟩

/-- **Resolving a history** whose first parents come to an end. -/
theorem runs_resolve (p : Prefix)
    (hchain : ∀ tip, h.head = some tip → FirstParents h.parents? tip chain) :
    Runs (fun q => (h.injected q.kind).map VersionError.repository) (h.repository.resolve p)
      ((h.facts p.text).resolvePlan p.text chain)
      (Details.ofDescription p ((h.facts p.text).description chain) h.clean
        (if h.head.isNone then "" else h.branch)) :=
  TagVersion.runs_resolve (h.tells_facts p.text) hchain (h.answer_eq_verdict .clean _)
    (h.answer_eq_verdict .branch _)

end History

end TagVersion
