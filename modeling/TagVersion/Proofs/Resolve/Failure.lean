import TagVersion.Proofs.Details
import TagVersion.Proofs.Resolve.Plan

/-!
Which failure resolving a version comes to, when any kinds of questions fail. A kind of question is
due or not by what the history holds, and of the due kinds that fail the first is told. Nothing
else is told as a failure of the repository.
-/

namespace TagVersion

open Reading Describe

lemma findSome?_flatMap {α β γ : Type} (l : List α) (f : α → List β) (g : β → Option γ) :
    (l.flatMap f).findSome? g = l.findSome? fun a => (f a).findSome? g := by
  induction l with
  | nil => rfl
  | cons a l ih =>
    rw [List.flatMap_cons, List.findSome?_append, ih, List.findSome?_cons]
    cases (f a).findSome? g <;> rfl

namespace History

variable {h : History} {start : String} {chain : List ObjectId}

/-- A tag whose name starts with a text leads to a commit. -/
def Carries (h : History) (start : String) (c : ObjectId) : Prop :=
  ∃ named ∈ h.tags, start.toList <+: named.1.toList ∧ h.peel named.2 = some c

/-- The commit of a chain at which a walk along it stops: the first that carries a tag. -/
def StopsAt (h : History) (start : String) (chain : List ObjectId) (c : ObjectId) : Prop :=
  h.Carries start c ∧
    ∃ before after, chain = before ++ c :: after ∧ ∀ b ∈ before, ¬ h.Carries start b

/-- Whether resolving comes to ask questions of a kind if nothing fails before: for the tags and
the state of the work tree if there is a tip, for what the tags lead to if there are tags, for
parents if the tip carries no tag, and for times if the commit at which the walk stops carries an
annotated tag. -/
def Due (h : History) (start : String) (chain : List ObjectId) : Query.Kind → Prop
  | .head => True
  | .tags => h.head ≠ none
  | .peel => h.head ≠ none ∧ ∃ named ∈ h.tags, start.toList <+: named.1.toList
  | .parents => ∃ tip, h.head = some tip ∧ ¬ h.Carries start tip
  | .tagger => h.head ≠ none ∧ ∃ c, h.StopsAt start chain c ∧
      ∃ named ∈ h.tags, start.toList <+: named.1.toList ∧ h.peel named.2 = some c ∧ named.2 ≠ c
  | .clean => h.head ≠ none
  | .branch => True

lemma untagged_facts_iff {c : ObjectId} :
    (h.facts start).untagged c = true ↔ ¬ h.Carries start c := by
  rw [Facts.untagged, List.isEmpty_iff, List.eq_nil_iff_forall_not_mem]
  constructor
  · rintro hnone ⟨⟨name, target⟩, hmem, hstart, hpeel⟩
    exact hnone (⟨name, target⟩, c)
      (Facts.mem_group_iff.mpr ⟨mem_refs_iff.mpr ⟨hmem, hstart⟩, hpeel, rfl⟩)
  · rintro hnone ⟨ref, peeled⟩ hmem
    obtain ⟨href, hpeel, rfl⟩ := Facts.mem_group_iff.mp hmem
    obtain ⟨hnamed, hstart⟩ := mem_refs_iff.mp href
    exact hnone ⟨_, hnamed, hstart, hpeel⟩

lemma taggers_ne_nil_iff {c : ObjectId} :
    Facts.taggers ((h.facts start).group c) ≠ [] ↔
      ∃ named ∈ h.tags, start.toList <+: named.1.toList ∧ h.peel named.2 = some c ∧
        named.2 ≠ c := by
  constructor
  · intro hne
    obtain ⟨q, hq⟩ := List.exists_mem_of_ne_nil _ hne
    obtain ⟨⟨ref, peeled⟩, hmem, rfl⟩ := List.mem_map.mp hq
    obtain ⟨hgroup, hannotated⟩ := List.mem_filter.mp hmem
    obtain ⟨href, hpeel, rfl⟩ := Facts.mem_group_iff.mp hgroup
    obtain ⟨hnamed, hstart⟩ := mem_refs_iff.mp href
    exact ⟨_, hnamed, hstart, hpeel, by simpa using hannotated⟩
  · rintro ⟨⟨name, target⟩, hmem, hstart, hpeel, hne⟩
    refine List.ne_nil_of_mem (List.mem_map.mpr ⟨(⟨name, target⟩, c), ?_, rfl⟩)
    refine List.mem_filter.mpr ⟨Facts.mem_group_iff.mpr ⟨?_, hpeel, rfl⟩, by simpa using hne⟩
    exact mem_refs_iff.mpr ⟨hmem, hstart⟩

lemma head?_dropWhile_eq_some_iff {c : ObjectId} :
    (chain.dropWhile (h.facts start).untagged).head? = some c ↔ h.StopsAt start chain c := by
  unfold StopsAt
  induction chain with
  | nil => simp
  | cons b chain ih =>
    by_cases hb : h.Carries start b
    · have huntagged : ¬ (h.facts start).untagged b = true := by
        rw [untagged_facts_iff, not_not]
        exact hb
      rw [List.dropWhile_cons_of_neg huntagged]
      constructor
      · rintro ⟨⟩
        exact ⟨hb, [], chain, rfl, by simp⟩
      · rintro ⟨-, _ | ⟨a, before⟩, after, heq, hbefore⟩
        · exact congrArg some (List.cons_eq_cons.mp heq).1
        · obtain ⟨rfl, -⟩ := List.cons_eq_cons.mp heq
          exact absurd hb (hbefore b (.head _))
    · rw [List.dropWhile_cons_of_pos (untagged_facts_iff.mpr hb), ih]
      constructor
      · rintro ⟨hc, before, after, rfl, hbefore⟩
        exact ⟨hc, b :: before, after, rfl, List.forall_mem_cons.mpr ⟨hb, hbefore⟩⟩
      · rintro ⟨hc, _ | ⟨a, before⟩, after, heq, hbefore⟩
        · obtain ⟨rfl, -⟩ := List.cons_eq_cons.mp heq
          exact absurd hc hb
        · obtain ⟨-, rfl⟩ := List.cons_eq_cons.mp heq
          exact ⟨hc, before, after, rfl, (List.forall_mem_cons.mp hbefore).2⟩

lemma born_ne_nil_iff {f : Facts} {qs : List Query} :
    f.born qs ≠ [] ↔ f.head ≠ none ∧ qs ≠ [] := by
  unfold Facts.born
  cases f.head <;> simp

lemma refs_ne_nil_iff :
    h.refs start ≠ [] ↔ ∃ named ∈ h.tags, start.toList <+: named.1.toList := by
  constructor
  · intro hne
    obtain ⟨ref, href⟩ := List.exists_mem_of_ne_nil _ hne
    exact ⟨_, mem_refs_iff.mp href⟩
  · rintro ⟨⟨name, target⟩, hnamed⟩
    have href : (⟨name, target⟩ : TagRef) ∈ h.refs start := mem_refs_iff.mpr hnamed
    exact List.ne_nil_of_mem href

/-- The walk asks for parents unless it stops at its first commit. -/
lemma takeWhile_ne_nil_iff {c : ObjectId} (hc : chain.head? = some c) :
    chain.takeWhile (h.facts start).untagged ≠ [] ↔ ¬ h.Carries start c := by
  obtain ⟨rest, rfl⟩ := List.head?_eq_some_iff.mp hc
  rw [← untagged_facts_iff]
  cases htag : (h.facts start).untagged c with
  | false => simp [htag]
  | true => simp [htag]

lemma taggers_of_stop_ne_nil_iff :
    ((chain.dropWhile (h.facts start).untagged).head?.map fun c =>
      Facts.taggers ((h.facts start).group c)).getD [] ≠ [] ↔
      ∃ c, h.StopsAt start chain c ∧ ∃ named ∈ h.tags, start.toList <+: named.1.toList ∧
        h.peel named.2 = some c ∧ named.2 ≠ c := by
  simp only [← head?_dropWhile_eq_some_iff, ← taggers_ne_nil_iff]
  cases (chain.dropWhile (h.facts start).untagged).head? with
  | none => simp
  | some c => simp

/-- A kind of questions is due just where some of them are asked. -/
lemma questions_ne_nil_iff (kind : Query.Kind)
    (hchain : ∀ tip, h.head = some tip → FirstParents h.parents? tip chain) :
    (h.facts start).questions start chain kind ≠ [] ↔ h.Due start chain kind := by
  cases kind with
  | head => simp [Facts.questions, Due]
  | branch => simp [Facts.questions, Due]
  | tags => simp [Facts.questions, Due, born_ne_nil_iff]
  | clean => simp [Facts.questions, Due, born_ne_nil_iff]
  | peel =>
    rw [Facts.questions, born_ne_nil_iff, List.map_eq_nil_iff.ne]
    exact and_congr_right fun _ => refs_ne_nil_iff
  | parents =>
    rw [Facts.questions, born_ne_nil_iff, List.map_eq_nil_iff.ne, Due, head_facts]
    cases hhead : h.head with
    | none => simp
    | some tip => simpa using takeWhile_ne_nil_iff (hchain tip hhead).head?_eq
  | tagger =>
    rw [Facts.questions, born_ne_nil_iff]
    exact and_congr_right fun _ => taggers_of_stop_ne_nil_iff

/-- The failure of the first kind of questions, in order, that is due and fails. -/
def FirstFailure (h : History) (start : String) (chain : List ObjectId) (e : Repository.Failure) :
    Prop :=
  ∃ before kind after, Query.Kind.inOrder = before ++ kind :: after ∧
    h.Due start chain kind ∧ h.injected kind = some e ∧
    ∀ k ∈ before, h.Due start chain k → h.injected k = none

section

variable {e : Repository.Failure}
  (hchain : ∀ tip, h.head = some tip → FirstParents h.parents? tip chain)

include hchain

lemma findSome?_questions_eq_some_iff {kind : Query.Kind} :
    ((h.facts start).questions start chain kind).findSome? (fun q => h.injected q.kind) = some e ↔
      h.Due start chain kind ∧ h.injected kind = some e := by
  rw [← questions_ne_nil_iff kind hchain]
  have hkind : ∀ q ∈ (h.facts start).questions start chain kind, q.kind = kind :=
    fun q => Facts.kind_of_mem_questions
  constructor
  · intro hsome
    obtain ⟨before, q, after, heq, hq, -⟩ := List.findSome?_eq_some_iff.mp hsome
    have hmem : q ∈ (h.facts start).questions start chain kind := by simp [heq]
    exact ⟨List.ne_nil_of_mem hmem, hkind q hmem ▸ hq⟩
  · rintro ⟨hne, hsome⟩
    obtain ⟨q, qs, heq⟩ := List.exists_cons_of_ne_nil hne
    have hq := hkind q (by simp [heq])
    rw [heq, List.findSome?_cons, hq, hsome]

lemma findSome?_questions_eq_none_iff {kind : Query.Kind} :
    ((h.facts start).questions start chain kind).findSome? (fun q => h.injected q.kind) = none ↔
      (h.Due start chain kind → h.injected kind = none) := by
  constructor
  · intro hnone hdue
    cases hinjected : h.injected kind with
    | none => rfl
    | some e =>
      have hsome := (findSome?_questions_eq_some_iff hchain).mpr ⟨hdue, hinjected⟩
      simp [hnone] at hsome
  · intro hdue
    cases hfirst : ((h.facts start).questions start chain kind).findSome?
        (fun q => h.injected q.kind) with
    | none => rfl
    | some e =>
      obtain ⟨hd, he⟩ := (findSome?_questions_eq_some_iff hchain).mp hfirst
      simp [hdue hd] at he

lemma findSome?_resolvePlan_iff :
    ((h.facts start).resolvePlan start chain).findSome? (fun q => h.injected q.kind) = some e ↔
      h.FirstFailure start chain e := by
  rw [Facts.resolvePlan, findSome?_flatMap, List.findSome?_eq_some_iff]
  simp only [findSome?_questions_eq_some_iff hchain, findSome?_questions_eq_none_iff hchain,
    and_assoc]
  rfl

lemma resolve_outcome_iff (p : Prefix) :
    (h.repository.resolve p).outcome = .error (.repository e) ↔ h.FirstFailure p.text chain e := by
  rw [← findSome?_resolvePlan_iff hchain, (runs_resolve p hchain).outcome, verdict,
    findSome?_map_failure]
  cases ((h.facts p.text).resolvePlan p.text chain).findSome? (fun q => h.injected q.kind) with
  | none => simpa using Details.ofDescription_ne_repository _ _ _ _ _
  | some e' => simp

lemma resolve_asked_iff (p : Prefix) :
    (∃ q ∈ (h.repository.resolve p).asked, (h.injected q.kind).isSome) ↔
      ∃ e, h.FirstFailure p.text chain e := by
  have hasked : (h.repository.resolve p).asked =
      cut (fun q => h.injected q.kind) ((h.facts p.text).resolvePlan p.text chain) :=
    (runs_resolve p hchain).asked.trans (cut_map _ _)
  rw [hasked, exists_mem_cut_iff fun q => h.injected q.kind, Option.isSome_iff_exists]
  exact exists_congr fun e => findSome?_resolvePlan_iff hchain

/-- Where no kind that is due fails, the failures make no difference. -/
lemma resolve_outcome_of_not (p : Prefix) (hnone : ∀ e, ¬ h.FirstFailure p.text chain e) :
    (h.repository.resolve p).outcome =
      ({ h with failures := [] }.repository.resolve p).outcome := by
  have hplan : ((h.facts p.text).resolvePlan p.text chain).findSome?
      (fun q => h.injected q.kind) = none :=
    Option.eq_none_iff_forall_ne_some.mpr fun e heq =>
      hnone e ((findSome?_resolvePlan_iff hchain).mp heq)
  have hruns := runs_resolve p hchain
  have hruns' := runs_resolve (h := { h with failures := [] }) p hchain
  rw [(hruns.of_never _).2, (hruns'.of_never _).2]
  · rfl
  · simp [injected]
  · rw [findSome?_map_failure, hplan]
    rfl

end

/-- **Failures are told, and nothing else is.** Whatever kinds of questions fail, resolving comes
to a failure of the repository just where it asks a question that fails, and then to the failure of
the first kind that is due and fails, as it was injected. Before the first commit that is the
question for the tip or for the branch. Without such a failure the outcome is the one where nothing
fails at all; and that a commit has no tags to select from is never told. -/
theorem resolve_failure (p : Prefix)
    (hchain : ∀ tip, h.head = some tip → FirstParents h.parents? tip chain) :
    (∀ e, (h.repository.resolve p).outcome = .error (.repository e) ↔
      h.FirstFailure p.text chain e) ∧
    ((∃ e, (h.repository.resolve p).outcome = .error (.repository e)) ↔
      ∃ q ∈ (h.repository.resolve p).asked, (h.injected q.kind).isSome) ∧
    (h.head = none → ∀ e, (h.repository.resolve p).outcome = .error (.repository e) →
      h.injected .head = some e ∨ h.injected .branch = some e) ∧
    ((∀ e, ¬ h.FirstFailure p.text chain e) → (h.repository.resolve p).outcome =
      ({ h with failures := [] }.repository.resolve p).outcome) ∧
    ∀ c : ObjectId, (h.repository.resolve p).outcome ≠
      .error (.repository (.operation s!"select tag on {c.text}" "no tags on commit" none)) := by
  refine ⟨fun e => resolve_outcome_iff hchain p, ?_, fun hhead e he => ?_,
    resolve_outcome_of_not hchain p, fun c hc => ?_⟩
  · rw [resolve_asked_iff hchain p]
    exact exists_congr fun e => resolve_outcome_iff hchain p
  · obtain ⟨before, kind, after, -, hdue, hinjected, -⟩ := (resolve_outcome_iff hchain p).mp he
    cases kind with
    | head => exact .inl hinjected
    | branch => exact .inr hinjected
    | tags => exact absurd hhead hdue
    | clean => exact absurd hhead hdue
    | peel => exact absurd hhead hdue.1
    | tagger => exact absurd hhead hdue.1
    | parents =>
      obtain ⟨tip, htip, -⟩ := hdue
      simp [hhead] at htip
  · obtain ⟨before, kind, after, -, -, hinjected, -⟩ := (resolve_outcome_iff hchain p).mp hc
    simp [injected] at hinjected

/-- A history with a tag one commit below its tip, where several kinds of questions fail. -/
def failing : History :=
  build {} [.commitHead, .annotated "v1" (idOf 1) none, .commitHead, .failOn .tagger 7,
    .failOn .branch 8, .failOn .parents 9]

theorem resolve_failure_failing :
    (∀ tip, failing.head = some tip → FirstParents failing.parents? tip [idOf 3, idOf 1]) ∧
      (failing.repository.resolve .empty).outcome =
        .error (.repository (.operation "read commit" "injected failure" (some 9))) := by
  have hchain : ∀ tip, failing.head = some tip →
      FirstParents failing.parents? tip [idOf 3, idOf 1] := by
    intro tip htip
    have hhead : failing.head = some (idOf 3) := rfl
    obtain rfl : idOf 3 = tip := Option.some.inj (hhead.symm.trans htip)
    have hparents : failing.parents? (idOf 3) = some [idOf 1] := by decide
    exact .step hparents (.last (by decide))
  have hcarries : ¬ failing.Carries "" (idOf 3) := by
    unfold Carries
    decide
  refine ⟨hchain, ((resolve_failure .empty hchain).1 _).mpr ?_⟩
  refine ⟨[.head, .tags, .peel], .parents, [.tagger, .clean, .branch], rfl, ⟨_, rfl, hcarries⟩,
    rfl, fun k hk _ => ?_⟩
  have hothers : ∀ k ∈ [Query.Kind.head, .tags, .peel], failing.injected k = none := by decide
  exact hothers k hk

end History

end TagVersion
