import Mathlib.Tactic.Lemma
import TagVersion.Repository.Reading

/-!
Readings that may be interrupted. A reading has a plan, the questions that it asks when every one
of them gets an answer, and what it comes to in the end. Where some questions fail, the reading
goes along its plan up to the first of them and comes to that failure. `Runs` says both at once, so
one plan serves for a repository that answers everything and for one that does not.
-/

namespace TagVersion.Reading

variable {ε ε' α β : Type}

@[simp] lemma asked_pure (a : α) : (Pure.pure a : Reading ε α).asked = [] := rfl

lemma asked_bind_ok {x : Reading ε α} {a : α} (h : x.outcome = .ok a) (f : α → Reading ε β) :
    (x >>= f).asked = x.asked ++ (f a).asked := by
  simp [asked, journal_bind_ok h]

lemma asked_bind_error {x : Reading ε α} {e : ε} (h : x.outcome = .error e)
    (f : α → Reading ε β) : (x >>= f).asked = x.asked := by
  simp [asked, journal_bind_error h]

/-- The questions up to the first that fails, and that one. -/
def cut (fails : Query → Option ε) : List Query → List Query
  | [] => []
  | q :: qs => if (fails q).isSome then [q] else q :: cut fails qs

/-- What comes of a plan: the failure of the first question that fails, else the result. -/
def verdict (fails : Query → Option ε) (plan : List Query) (result : Except ε α) : Except ε α :=
  match plan.findSome? fails with
  | some e => .error e
  | none => result

variable {fails : Query → Option ε}

lemma cut_of_findSome?_eq_none {plan : List Query} (h : plan.findSome? fails = none)
    (more : List Query) : cut fails (plan ++ more) = plan ++ cut fails more := by
  induction plan with
  | nil => rfl
  | cons q plan ih =>
    rw [List.findSome?_cons] at h
    split at h
    · simp at h
    · next hq => simp [cut, hq, ih h]

lemma cut_of_findSome?_eq_some {plan : List Query} {e : ε} (h : plan.findSome? fails = some e)
    (more : List Query) : cut fails (plan ++ more) = cut fails plan := by
  induction plan with
  | nil => simp at h
  | cons q plan ih =>
    rw [List.findSome?_cons] at h
    split at h
    · next hq => simp [cut, hq]
    · next hq => simp [cut, hq, ih h]

lemma cut_map (f : ε → ε') (plan : List Query) :
    cut (fun q => (fails q).map f) plan = cut fails plan := by
  induction plan with
  | nil => rfl
  | cons q plan ih => simp [cut, ih]

lemma findSome?_map_failure (f : ε → ε') (plan : List Query) :
    plan.findSome? (fun q => (fails q).map f) = (plan.findSome? fails).map f :=
  List.map_findSome?.symm

lemma exists_mem_cut_iff (fails : Query → Option ε) (plan : List Query) :
    (∃ q ∈ cut fails plan, (fails q).isSome) ↔ (plan.findSome? fails).isSome := by
  induction plan with
  | nil => simp [cut]
  | cons q plan ih =>
    cases hq : fails q with
    | some e => simp [cut, hq]
    | none => simpa [cut, hq] using ih

lemma cut_prefix (fails : Query → Option ε) (plan : List Query) : cut fails plan <+: plan := by
  induction plan with
  | nil => exact List.prefix_rfl
  | cons q plan ih =>
    rw [cut]
    split
    · exact ⟨plan, rfl⟩
    · exact (List.prefix_cons_inj q).mpr ih

/-- Nothing stands behind a question that fails. -/
lemma eq_nil_of_cut_eq {plan before after : List Query} {q : Query}
    (h : cut fails plan = before ++ q :: after) (hq : (fails q).isSome) : after = [] := by
  induction plan generalizing before with
  | nil => simp [cut] at h
  | cons first plan ih =>
    rw [cut] at h
    split at h
    · obtain ⟨-, hafter⟩ | ⟨-, hafter⟩ := List.append_eq_singleton_iff.mp h.symm
      · exact (List.cons_eq_cons.mp hafter).2
      · simp at hafter
    · next hfirst =>
      cases before with
      | nil =>
        obtain ⟨rfl, -⟩ := List.cons_eq_cons.mp h
        exact absurd hq hfirst
      | cons other before => exact ih (List.cons_eq_cons.mp h).2

lemma verdict_of_eq_none {plan : List Query} (h : plan.findSome? fails = none)
    (result : Except ε α) : verdict fails plan result = result := by
  simp [verdict, h]

lemma verdict_of_eq_some {plan : List Query} {e : ε} (h : plan.findSome? fails = some e)
    (result : Except ε α) : verdict fails plan result = .error e := by
  simp [verdict, h]

/-- Where nothing fails the result stands. -/
@[simp] lemma verdict_never (plan : List Query) (result : Except ε α) :
    verdict (fun _ => none) plan result = result :=
  verdict_of_eq_none (by simp) result

/-- The reading goes along a plan and comes to a result, but for the questions that fail. -/
structure Runs (fails : Query → Option ε) (x : Reading ε α) (plan : List Query)
    (result : Except ε α) : Prop where
  asked : x.asked = cut fails plan
  outcome : x.outcome = verdict fails plan result

namespace Runs

lemma pure (a : α) : Runs fails (Pure.pure a) [] (.ok a) := ⟨rfl, rfl⟩

lemma log (line : Log.Line) : Runs fails (Reading.log line) [] (.ok ()) := ⟨rfl, rfl⟩

/-- Plans are followed one after the other, the second with what the first came to. -/
lemma bind {x : Reading ε α} {f : α → Reading ε β} {plan more : List Query} {a : α}
    {result : Except ε β} (hx : Runs fails x plan (.ok a)) (hf : Runs fails (f a) more result) :
    Runs fails (x >>= f) (plan ++ more) result := by
  have split : (plan ++ more).findSome? fails = _ := List.findSome?_append
  cases h : plan.findSome? fails with
  | none =>
    have hok : x.outcome = .ok a := by rw [hx.outcome, verdict_of_eq_none h]
    have hall : plan = cut fails plan := by
      simpa [cut] using (cut_of_findSome?_eq_none h []).symm
    refine ⟨?_, ?_⟩
    · rw [asked_bind_ok hok, hx.asked, hf.asked, ← hall, cut_of_findSome?_eq_none h]
    · rw [outcome_bind, hok]
      show (f a).outcome = _
      rw [hf.outcome, verdict, verdict, split, h, Option.none_or]
  | some e =>
    have hbad : x.outcome = .error e := by rw [hx.outcome, verdict_of_eq_some h]
    refine ⟨?_, ?_⟩
    · rw [asked_bind_error hbad, hx.asked, cut_of_findSome?_eq_some h]
    · rw [outcome_bind, hbad, verdict, split, h]
      rfl

lemma bind_pure {x : Reading ε α} {plan : List Query} {a : α} (hx : Runs fails x plan (.ok a))
    (g : α → β) : Runs fails (x >>= fun a => Pure.pure (g a)) plan (.ok (g a)) := by
  simpa using hx.bind (f := fun a => Pure.pure (g a)) (.pure (g a))

/-- Telling failures as another kind of error changes no plan. -/
lemma mapError {x : Reading ε α} {plan : List Query} {result : Except ε α}
    (hx : Runs fails x plan result) (f : ε → ε') :
    Runs (fun q => (fails q).map f) (x.mapError f) plan (result.mapError f) := by
  refine ⟨?_, ?_⟩
  · rw [cut_map, ← hx.asked]
    rfl
  · show x.outcome.mapError f = _
    rw [hx.outcome, verdict, verdict, findSome?_map_failure]
    cases plan.findSome? fails <;> rfl

/-- Nothing fails: the reading asks the whole plan and comes to its result. -/
lemma of_never {x : Reading ε α} {plan : List Query} {result : Except ε α}
    (hx : Runs fails x plan result) (h : plan.findSome? fails = none) :
    x.asked = plan ∧ x.outcome = result := by
  refine ⟨?_, ?_⟩
  · simpa [cut] using hx.asked.trans (by simpa [cut] using cut_of_findSome?_eq_none h [])
  · rw [hx.outcome, verdict_of_eq_none h]

end Runs

end TagVersion.Reading

namespace TagVersion.Repository

open Reading

/-- A question is a plan of its own. -/
lemma runs_ask {α : Type} {fails : Query → Option Failure} (r : Repository) {query : Query}
    {answer : Except Failure α} {a : α} (h : answer = verdict fails [query] (.ok a)) :
    Runs fails (r.ask query answer) [query] (.ok a) := by
  refine ⟨?_, h⟩
  have hlog : ∀ lines : List Log.Line, (⟨lines.map .logged, answer⟩ : Reading _ _).asked = [] := by
    intro lines
    simp [asked]
  show query :: asked ⟨(r.lines query).map .logged, answer⟩ = _
  rw [hlog]
  simp [cut]

end TagVersion.Repository
