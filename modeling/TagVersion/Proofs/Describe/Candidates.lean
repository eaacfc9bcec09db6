import TagVersion.Proofs.Describe.Nearest
import TagVersion.Proofs.Outcome

/-!
Collecting candidates from a repository of which any question may fail. The tags are asked one by
one where they lead, so the first of them that fails is the failure of all; if none does, those
that lead to a commit are the candidates, in the order in which the tags are listed.
-/

namespace TagVersion.Repository

open Outcome Reading Describe

variable {r : Repository} {start : String} {refs : List TagRef} {candidates : List Candidate}
  {e : Failure}

/-- The failure of a question, if it fails. -/
def failure? (r : Repository) : Query → Option Failure
  | .head => Outcome.failure? r.head
  | .tags start => Outcome.failure? (r.tags start)
  | .peel tag => Outcome.failure? (r.peel tag)
  | .parents commit => Outcome.failure? (r.parents commit)
  | .tagger tag => Outcome.failure? (r.tagger tag)
  | .clean => Outcome.failure? r.clean
  | .branch => Outcome.failure? r.branch

lemma eq_verdict_failure? {α : Type} {fails : Query → Option Failure} {q : Query}
    {x : Except Failure α} {a : α} (hfails : fails q = Outcome.failure? x)
    (ha : ∀ b, x = .ok b → b = a) : x = verdict fails [q] (.ok a) := by
  cases x with
  | error e => exact (verdict_of_eq_some (by simp [hfails, Outcome.failure?]) _).symm
  | ok b =>
    rw [ha b rfl]
    exact (verdict_of_eq_none (by simp [hfails, Outcome.failure?]) _).symm

/-- A repository tells its facts, but for what fails. -/
lemma tells_of_tags (htags : r.tags start = .ok refs) :
    Tells r.failure? r start (r.facts r.head.toOption.join refs) where
  head := eq_verdict_failure? rfl fun tip htip => by simp [facts, htip, Except.toOption]
  tags := eq_verdict_failure? rfl fun other hother => Except.ok.inj (hother.symm.trans htags)
  peel ref _ := eq_verdict_failure? rfl fun c hc => by simp [facts, hc, Except.toOption]
  parents c ps hps := eq_verdict_failure? rfl fun qs hqs =>
    Except.ok.inj (hqs.symm.trans (toOption_eq_some_iff.mp hps))
  tagger ref _ := eq_verdict_failure? rfl fun time htime => by simp [facts, htime, Except.toOption]
  commits c ps hps := r.mem_commits c ps (toOption_eq_some_iff.mp hps)

lemma outcome_candidates (htags : r.tags start = .ok refs) :
    (Describe.candidates r start).outcome = verdict r.failure? (refs.map .peel)
      (.ok (r.facts r.head.toOption.join refs).candidates) := by
  have hruns := runs_candidates (tells_of_tags htags)
  have hlisted : r.failure? (.tags start) = none := failure?_eq_none_iff.mpr ⟨refs, htags⟩
  rw [hruns.outcome, verdict, verdict, List.findSome?_cons, hlisted]
  rfl

/-- What has been collected is every tag that leads to a commit, with its commit. -/
lemma eq_of_candidates_eq_ok (htags : r.tags start = .ok refs)
    (h : (Describe.candidates r start).outcome = .ok candidates) :
    candidates = (r.facts r.head.toOption.join refs).candidates := by
  rw [outcome_candidates htags, verdict] at h
  split at h
  · cases h
  · exact (Except.ok.inj h).symm

lemma mem_candidates_iff (htags : r.tags start = .ok refs)
    (h : (Describe.candidates r start).outcome = .ok candidates) {ref : TagRef} {c : ObjectId} :
    (ref, c) ∈ candidates ↔ ref ∈ refs ∧ r.peel ref = .ok (some c) := by
  rw [eq_of_candidates_eq_ok htags h, Facts.mem_candidates_iff, lead_facts_eq_some_iff]
  rfl

lemma map_fst_candidates_sublist (htags : r.tags start = .ok refs)
    (h : (Describe.candidates r start).outcome = .ok candidates) :
    (candidates.map Prod.fst).Sublist refs := by
  rw [eq_of_candidates_eq_ok htags h]
  exact Facts.map_fst_candidates_sublist _

end TagVersion.Repository
