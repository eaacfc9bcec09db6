import Mathlib.Logic.Relation
import TagVersion.Proofs.Git.Tagger

/-!
Following tag objects from one to the next. Where none of them leads back to itself they come to an
end: at an object that is no tag object, or at one that is not there. So the limit on their number
is never met, and a tag leads to a commit, to something else, or to a failure.
-/

namespace TagVersion.Git.Store

open Outcome

variable {s : Store} {id target last : ObjectId} {object next : Object} {kind : Kind}
  {seconds : Option Int} {code : Int} {outcome : Except Int (ObjectId × Object)} {ref : TagRef}
  {e : Repository.Failure}

/-- There is no object of a kind with an id: none can be read, or one of another kind, which counts
as missing. -/
def Lacks (s : Store) (kind : Kind) (id : ObjectId) (code : Int) : Prop :=
  s.read id = .error code ∨
    ∃ object, s.read id = .ok object ∧ object.kind ≠ kind ∧ code = Code.notFound

lemma readAs_eq_error_iff : s.readAs kind id = .error code ↔ s.Lacks kind id code := by
  rw [readAs, bind_eq_error_iff, Lacks]
  refine or_congr_right (exists_congr fun object => and_congr_right fun _ => ?_)
  split_ifs with h
  · refine iff_of_false (fun heq => ?_) fun hne => hne.1 h
    cases heq
  · exact ⟨fun heq => ⟨h, (Except.error.inj heq).symm⟩, fun hne => hne.2 ▸ rfl⟩

/-- From an object on, tag objects are followed one by one, to an object that is no tag object, or
to one that is not there. -/
inductive Follows (s : Store) : ObjectId → Except Int (ObjectId × Object) → Prop where
  | here {id : ObjectId} {object : Object} : s.read id = .ok object → object.kind ≠ .tag →
      Follows s id (.ok (id, object))
  | missing {id target : ObjectId} {kind : Kind} {seconds : Option Int} {code : Int} :
      s.read id = .ok (.tag target kind seconds) → s.Lacks kind target code →
      Follows s id (.error code)
  | step {id target : ObjectId} {kind : Kind} {seconds : Option Int} {next : Object}
      {outcome : Except Int (ObjectId × Object)} :
      s.read id = .ok (.tag target kind seconds) → s.read target = .ok next → next.kind = kind →
      Follows s target outcome → Follows s id outcome

lemma follows_iff_of_not_tag (hread : s.read id = .ok object) (hkind : object.kind ≠ .tag) :
    s.Follows id outcome ↔ outcome = .ok (id, object) := by
  constructor
  · intro h
    cases h with
    | here hread' => rw [Except.ok.inj (hread.symm.trans hread')]
    | missing hread' | step hread' =>
      rw [Except.ok.inj (hread.symm.trans hread')] at hkind
      exact absurd rfl hkind
  · rintro rfl
    exact .here hread hkind

/-- Where a tag object leads is where the object leads that it is about, if that is there. -/
lemma follows_iff_of_tag (hread : s.read id = .ok (.tag target kind seconds)) :
    s.Follows id outcome ↔ (∃ code, s.Lacks kind target code ∧ outcome = .error code) ∨
      ∃ next, s.read target = .ok next ∧ next.kind = kind ∧ s.Follows target outcome := by
  constructor
  · intro h
    cases h with
    | here hread' hkind' =>
      rw [← Except.ok.inj (hread.symm.trans hread')] at hkind'
      exact absurd rfl hkind'
    | missing hread' hlacks =>
      obtain ⟨rfl, rfl, -⟩ := Object.tag.inj (Except.ok.inj (hread.symm.trans hread'))
      exact .inl ⟨_, hlacks, rfl⟩
    | step hread' hnext hkind hfollows =>
      obtain ⟨rfl, rfl, -⟩ := Object.tag.inj (Except.ok.inj (hread.symm.trans hread'))
      exact .inr ⟨_, hnext, hkind, hfollows⟩
  · rintro (⟨code, hlacks, rfl⟩ | ⟨next, hnext, hkind, hfollows⟩)
    · exact .missing hread hlacks
    · exact .step hread hnext hkind hfollows

lemma Lacks.unique {other : Int} (h : s.Lacks kind id code) (h' : s.Lacks kind id other) :
    code = other := by
  rw [← readAs_eq_error_iff] at h h'
  exact Except.error.inj (h.symm.trans h')

lemma Lacks.kind_ne (h : s.Lacks kind id code) (hread : s.read id = .ok object) :
    object.kind ≠ kind := by
  intro hkind
  rw [← readAs_eq_error_iff, readAs_eq_ok_iff.mpr ⟨hread, hkind⟩] at h
  cases h

/-- Following comes to one end only. -/
lemma Follows.unique {other : Except Int (ObjectId × Object)} (h : s.Follows id outcome)
    (h' : s.Follows id other) : outcome = other := by
  induction h with
  | here hread hkind => exact ((follows_iff_of_not_tag hread hkind).mp h').symm
  | missing hread hlacks =>
    rcases (follows_iff_of_tag hread).mp h' with ⟨_, hlacks', rfl⟩ | ⟨_, hnext, hkind, -⟩
    · rw [hlacks.unique hlacks']
    · exact absurd hkind (hlacks.kind_ne hnext)
  | step hread hnext hkind _ ih =>
    rcases (follows_iff_of_tag hread).mp h' with ⟨_, hlacks, -⟩ | ⟨_, -, -, hfollows⟩
    · exact absurd hkind (hlacks.kind_ne hnext)
    · exact ih hfollows

/-! ### No circles -/

/-- A tag object is about an object. -/
def PointsAt (s : Store) (i j : ObjectId) : Prop :=
  ∃ kind seconds, s.read i = .ok (.tag j kind seconds)

/-- No chain of tag objects leads back to where it started. -/
def Acyclic (s : Store) : Prop := ∀ i, ¬ Relation.TransGen s.PointsAt i i

/-- Following a tag ends at an object that is no tag object. -/
structure EndsAt (s : Store) (ref : TagRef) (last : ObjectId) (object : Object) : Prop where
  size : ref.target.text.utf8ByteSize = 40
  follows : s.Follows ref.target (.ok (last, object))

lemma EndsAt.unique {last' : ObjectId} {object' : Object} (h : s.EndsAt ref last object)
    (h' : s.EndsAt ref last' object') : last = last' ∧ object = object' :=
  Prod.mk.inj (Except.ok.inj (h.follows.unique h'.follows))

end TagVersion.Git.Store
