import TagVersion.History
import TagVersion.Proofs.Details

/-!
One history resolved twice, its work tree once without and once with changes. The second reading
mirrors the first, question by question and line by line, up to the description of the tip and
beyond; all that differs in the end is the mark and that the tag is no longer clean.
-/

namespace TagVersion

namespace Reading

variable {ε ε' α β γ δ : Type} {f : α → β} {g : γ → δ} {x : Reading ε α} {y : Reading ε β}

/-- The second reading has the same journal as the first, and comes to the image of what that one
comes to. -/
structure Mirrors (f : α → β) (x : Reading ε α) (y : Reading ε β) : Prop where
  journal : y.journal = x.journal
  outcome : y.outcome = x.outcome.map f

lemma outcome_mapError_eq_ok_iff {rename : ε → ε'} {a : α} :
    (x.mapError rename).outcome = .ok a ↔ x.outcome = .ok a :=
  Outcome.mapError_eq_ok_iff

namespace Mirrors

lemma refl (x : Reading ε α) : Mirrors id x x := by
  refine ⟨rfl, ?_⟩
  cases x.outcome <;> rfl

lemma pure (f : α → β) (a : α) :
    Mirrors f (Pure.pure a : Reading ε α) (Pure.pure (f a)) := ⟨rfl, rfl⟩

lemma bind {k : α → Reading ε γ} {l : β → Reading ε δ} (h : Mirrors f x y)
    (hk : ∀ a, x.outcome = .ok a → Mirrors g (k a) (l (f a))) :
    Mirrors g (x >>= k) (y >>= l) := by
  cases hx : x.outcome with
  | error e =>
    have hy : y.outcome = .error e := by rw [h.outcome, hx]; rfl
    refine ⟨?_, ?_⟩
    · rw [journal_bind_error hx, journal_bind_error hy, h.journal]
    · rw [outcome_bind, outcome_bind, hx, hy]
      rfl
  | ok a =>
    have hy : y.outcome = .ok (f a) := by rw [h.outcome, hx]; rfl
    have hnext := hk a hx
    refine ⟨?_, ?_⟩
    · rw [journal_bind_ok hx, journal_bind_ok hy, h.journal, hnext.journal]
    · rw [outcome_bind, outcome_bind, hx, hy]
      exact hnext.outcome

lemma mapError (h : Mirrors f x y) (rename : ε → ε') :
    Mirrors f (x.mapError rename) (y.mapError rename) := by
  refine ⟨h.journal, ?_⟩
  show y.outcome.mapError rename = (x.outcome.mapError rename).map f
  rw [h.outcome]
  cases x.outcome <;> rfl

end Mirrors

end Reading

namespace Details

/-- The same details, but for changes in the work tree. -/
def dirtied (d : Details) : Details :=
  { d with version := d.version ++ dirtyMark, isCleanTag := false }

/-- The mark is put on after the description has been read back. -/
lemma ofDescription_dirty (p : Prefix) (d : Description) (branch : String) :
    ofDescription p (some d) false branch =
      (ofDescription p (some d) true branch).map dirtied := by
  rw [ofDescription_some, ofDescription_some]
  cases named p d <;> rfl

end Details

namespace Repository

open Describe

/-- The same repository, but for what it answers of its work tree. -/
def withClean (r : Repository) (answer : Except Failure Bool) : Repository :=
  { r with clean := answer }

variable {r : Repository} {answer : Except Failure Bool} {start : String}

/-! The tip is described without a look at the work tree. -/

lemma peelAll_withClean (tags : List TagRef) :
    peelAll (r.withClean answer) tags = peelAll r tags := by
  induction tags with
  | nil => rfl
  | cons tag rest ih =>
    rw [peelAll, peelAll, ih]
    rfl

lemma toTags_withClean (group : List Candidate) :
    toTags (r.withClean answer) group = toTags r group := by
  induction group with
  | nil => rfl
  | cons candidate rest ih =>
    rw [toTags, toTags, ih]
    rfl

lemma best_withClean (commit : ObjectId) (group : List Candidate) :
    best (r.withClean answer) commit group = best r commit group := by
  rw [best, best, toTags_withClean]

lemma walk_withClean (known : List Candidate) (bound : Nat) (commit : ObjectId)
    (distance : UInt32) :
    walk (r.withClean answer) known bound commit distance = walk r known bound commit distance := by
  induction bound generalizing commit distance with
  | zero => rfl
  | succ bound ih =>
    simp only [walk, best_withClean, ih]
    rfl

lemma describe_withClean : (r.withClean answer).describe start = r.describe start := by
  simp only [describe, candidates, walk_withClean, peelAll_withClean]
  rfl

/-- There is a description just if there is a tip. -/
lemma head_of_describe {description : Option Description}
    (h : (r.describe start).outcome = .ok description) :
    ∃ head, r.head = .ok head ∧ head.isSome = description.isSome := by
  have hask : r.askHead.outcome = r.head := rfl
  unfold describe at h
  rw [Reading.outcome_bind, hask] at h
  obtain ⟨head, hhead, h⟩ := Outcome.bind_eq_ok_iff.mp h
  refine ⟨head, hhead, ?_⟩
  cases head with
  | none =>
    obtain rfl : none = description := Except.ok.inj h
    rfl
  | some tip =>
    change Reading.outcome (_ >>= _) = _ at h
    simp only [Reading.outcome_bind] at h
    obtain ⟨known, -, h⟩ := Outcome.bind_eq_ok_iff.mp h
    obtain ⟨-, -, h⟩ := Outcome.bind_eq_ok_iff.mp h
    obtain ⟨found, -, h⟩ := Outcome.bind_eq_ok_iff.mp h
    obtain rfl := Except.ok.inj h
    rfl

/-- A look at the work tree that finds changes, where the other look finds none. -/
lemma mirrors_askClean (r : Repository) (looked : Except Failure Unit) :
    Reading.Mirrors (fun _ => false) (r.withClean (looked.map fun _ => true)).askClean
      (r.withClean (looked.map fun _ => false)).askClean := by
  refine ⟨rfl, ?_⟩
  show looked.map _ = (looked.map _).map _
  cases looked <;> rfl

lemma eq_true_of_askClean {looked : Except Failure Unit} {isClean : Bool}
    (h : (r.withClean (looked.map fun _ => true)).askClean.outcome = .ok isClean) :
    isClean = true := by
  obtain ⟨-, -, hclean⟩ := Outcome.map_eq_ok_iff.mp h
  exact hclean.symm

/-- The reading of a repository whose work tree has changes mirrors that of the same repository
without them. -/
theorem mirrors_resolve (r : Repository) (looked : Except Failure Unit) (p : Prefix)
    {tip : Option ObjectId} (htip : ∀ head, r.head = .ok head → head = tip) :
    Reading.Mirrors (if tip = none then id else Details.dirtied)
      ((r.withClean (looked.map fun _ => true)).resolve p)
      ((r.withClean (looked.map fun _ => false)).resolve p) := by
  unfold resolve
  rw [describe_withClean, describe_withClean]
  refine (Reading.Mirrors.refl _).bind fun description hdescription => ?_
  obtain ⟨head, hhead, hsome⟩ :=
    head_of_describe (Reading.outcome_mapError_eq_ok_iff.mp hdescription)
  obtain rfl := htip head hhead
  cases description with
  | none =>
    have hnone : head = none := by simpa using hsome
    rw [if_pos hnone]
    exact .refl _
  | some d =>
    have hborn : head ≠ none := by
      rintro rfl
      simp at hsome
    rw [if_neg hborn]
    refine ((mirrors_askClean r looked).mapError _).bind fun isClean hlook => ?_
    obtain rfl := eq_true_of_askClean (Reading.outcome_mapError_eq_ok_iff.mp hlook)
    refine (Reading.Mirrors.refl _).bind fun branch _ => ?_
    have hdetails : Reading.Mirrors Details.dirtied
        (Reading.ofExcept (Details.ofDescription p (some d) true branch))
        (Reading.ofExcept (Details.ofDescription p (some d) false branch)) :=
      ⟨rfl, Details.ofDescription_dirty p d branch⟩
    refine hdetails.bind fun details _ => ?_
    exact (Reading.Mirrors.refl _).bind fun _ _ => .pure _ _

end Repository

namespace History

lemma map_answer {α β : Type} (h : History) (kind : Query.Kind) (f : α → β) (a : α) :
    (h.answer kind (.ok a)).map f = h.answer kind (.ok (f a)) := by
  unfold answer
  cases h.failures.lookup kind <;> rfl

lemma eq_of_answer_eq_ok {α : Type} {h : History} {kind : Query.Kind} {a b : α}
    (hanswer : h.answer kind (.ok a) = .ok b) : b = a := by
  unfold answer at hanswer
  cases hfails : h.failures.lookup kind with
  | some code => simp [hfails] at hanswer
  | none =>
    rw [hfails] at hanswer
    exact (Except.ok.inj hanswer).symm

lemma repository_setClean (h : History) (isClean : Bool) :
    (h.apply (.setClean isClean)).repository =
      h.repository.withClean ((h.answer .clean (.ok ())).map fun _ => isClean) := by
  rw [map_answer]
  rfl

/-- **Changes in the work tree show, and change nothing else.** In any history, whatever questions
fail, resolving asks and logs the same with changes in the work tree as without. Either both fail
alike, or both succeed: before the first commit with the same details, and otherwise with details
that differ only in the mark behind the version and in that the tag is not clean. -/
theorem resolve_dirtied (h : History) (p : Prefix) :
    let clean := (h.apply (.setClean true)).repository.resolve p
    let dirty := (h.apply (.setClean false)).repository.resolve p
    dirty.journal = clean.journal ∧
    ((∃ e, clean.outcome = .error e ∧ dirty.outcome = .error e) ∨
      ∃ d, clean.outcome = .ok d ∧ dirty.outcome = .ok
        (if h.head = none then d
          else { d with version := d.version ++ ".dirty", isCleanTag := false })) := by
  intro clean dirty
  have hmirrors : Reading.Mirrors (if h.head = none then id else Details.dirtied) clean dirty := by
    show Reading.Mirrors _ ((h.apply (.setClean true)).repository.resolve p)
      ((h.apply (.setClean false)).repository.resolve p)
    rw [repository_setClean, repository_setClean]
    exact h.repository.mirrors_resolve _ p fun _ => eq_of_answer_eq_ok
  refine ⟨hmirrors.journal, ?_⟩
  have houtcome := hmirrors.outcome
  cases hclean : clean.outcome with
  | error e =>
    rw [hclean] at houtcome
    exact .inl ⟨e, rfl, houtcome⟩
  | ok d =>
    rw [hclean] at houtcome
    refine .inr ⟨d, rfl, houtcome.trans ?_⟩
    split_ifs <;> rfl

/-- A history with a tag one commit below the tip, whose name looks as if it were marked. -/
example :
    let h : History := .build {} [.commitHead, .lightweight "v1.dirty" (idOf 1), .commitHead]
    ((h.apply (.setClean false)).repository.resolve .empty).outcome.toOption.map Details.version =
      some "1.dirty-1-g3c6ef37.dirty" := by
  decide

end History

end TagVersion
