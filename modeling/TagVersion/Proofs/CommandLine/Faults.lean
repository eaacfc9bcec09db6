import Mathlib.Tactic.Lemma
import TagVersion.CommandLine.Run
import TagVersion.Proofs.Config.Load
import TagVersion.Proofs.Resolve.Sharing

/-!
Runs in which any number of things are wrong at once. What can be wrong is put into an order that
does not depend on how a run goes about its work; a run reports the first fault in that order, or
answers if there is none.
-/

namespace TagVersion.CommandLine

/-- A part of what a run is given, which may be at fault. -/
inductive Part where
  | arguments
  | flag
  | configuration
  | repository
deriving DecidableEq, Repr

/-- The parts, the one whose faults are reported before all others first. -/
def Part.inOrder : List Part := [.arguments, .flag, .configuration, .repository]

/-- The configuration that a run meets with, in a repository or outside of any. -/
def loaded (w : World) (a : Arguments) : Except Config.Failure Config :=
  Config.load w.files w.environment
    (((w.surroundings.openAt (directory w a)).toOption).map Opened.workTree)

/-- The repository that a run is about, and the root of its work tree. -/
def tree (w : World) (a : Arguments) : Except Repository.Failure (Repository × String) :=
  (Resolver.Call.mk w.surroundings (directory w a) none).tree

/-- The prefix that holds for a run. One that is given holds even if it is empty. -/
inductive Chooses (w : World) (a : Arguments) : String → Prop
  | flag {text : String} (given : a.tagPrefix = some text) : Chooses w a text
  | repo {c : Config} {text : String} (noFlag : a.tagPrefix = none) (load : loaded w a = .ok c)
      (given : c.repo.bind Config.Repo.tagPrefix = some text) : Chooses w a text
  | global {c : Config} {text : String} (noFlag : a.tagPrefix = none) (load : loaded w a = .ok c)
      (noRepo : c.repo.bind Config.Repo.tagPrefix = none)
      (given : c.global.tagPrefix = some text) : Chooses w a text
  | nothing {c : Config} (noFlag : a.tagPrefix = none) (load : loaded w a = .ok c)
      (noRepo : c.repo.bind Config.Repo.tagPrefix = none)
      (noGlobal : c.global.tagPrefix = none) : Chooses w a ""

/-- What is wrong with a part, as the ending that reports it. The parts are looked at each for
itself: several may be at fault. -/
inductive Fault (w : World) (words : List String) : Part → Ending → Prop
  | arguments {why : Arguments.Stop} (parsed : Arguments.parse words = .error why)
      (isError : why.isError = true) : Fault w words .arguments (.stopped why)
  | flag {a : Arguments} {text : String} (parsed : Arguments.parse words = .ok a)
      (given : a.tagPrefix = some text) (malformed : Prefix.ofText? text = none) :
      Fault w words .flag (.failed (.tagPrefix (.invalidPrefix text)))
  | configuration {a : Arguments} {e : Config.Failure} (parsed : Arguments.parse words = .ok a)
      (load : loaded w a = .error e) : Fault w words .configuration (.failed (.configuration e))
  | opening {a : Arguments} {e : Repository.Failure} (parsed : Arguments.parse words = .ok a)
      (tree : tree w a = .error e) :
      Fault w words .repository (.failed (.resolution (.repository e)))
  | reading {a : Arguments} {p : Prefix} {repository : Repository} {root : String}
      {e : VersionError} (parsed : Arguments.parse words = .ok a) (chosen : Chooses w a p.text)
      (tree : tree w a = .ok (repository, root))
      (resolve : (repository.resolve p).outcome = .error e) :
      Fault w words .repository (.failed (.resolution e))

variable {w : World} {words : List String} {a : Arguments} {c : Config} {text : String}
  {p p' : Prefix} {d : Details}

lemma chooses_iff (hload : loaded w a = .ok c) :
    Chooses w a text ↔ text = (effectivePrefix a.tagPrefix c.tagPrefix).getD "" := by
  have hloaded : ∀ {c'}, loaded w a = .ok c' → c' = c := fun h => Except.ok.inj (h.symm.trans hload)
  -- both sides take the first that is given of the flag, the repository's prefix and the global one
  constructor
  · rintro (hgiven | ⟨hflag, hload', hgiven⟩ | ⟨hflag, hload', hrepo, hgiven⟩ |
      ⟨hflag, hload', hrepo, hglobal⟩)
    · simp [effectivePrefix, hgiven]
    all_goals obtain rfl := hloaded hload'
    · simp [effectivePrefix, Config.tagPrefix, hflag, hgiven]
    · simp [effectivePrefix, Config.tagPrefix, hflag, hrepo, hgiven]
    · simp [effectivePrefix, Config.tagPrefix, hflag, hrepo, hglobal]
  · rintro rfl
    cases hflag : a.tagPrefix with
    | some text => exact .flag hflag
    | none =>
      cases hrepo : c.repo.bind Config.Repo.tagPrefix with
      | some text => exact .repo hflag hload (by simp [effectivePrefix, Config.tagPrefix, hrepo])
      | none =>
        cases hglobal : c.global.tagPrefix with
        | some text =>
          exact .global hflag hload hrepo
            (by simp [effectivePrefix, Config.tagPrefix, hrepo, hglobal])
        | none =>
          simpa [effectivePrefix, Config.tagPrefix, hrepo, hglobal] using
            Chooses.nothing hflag hload hrepo hglobal

lemma Chooses.unique (hload : loaded w a = .ok c) (h : Chooses w a p.text)
    (h' : Chooses w a p'.text) : p = p' := by
  have htext : p.text = p'.text :=
    ((chooses_iff hload).mp h).trans ((chooses_iff hload).mp h').symm
  obtain ⟨text, _⟩ := p
  obtain ⟨text', _⟩ := p'
  simpa using htext

lemma Fault.report {part : Part} {ending : Ending} (h : Fault w words part ending) :
    ending.exitCode ≠ 0 ∧ ending.output = "" ∧
      "error: ".toList <+: ending.complaint.toList := by
  have hfailed : ∀ e : Failure, "error: ".toList <+: (Ending.failed e).complaint.toList := by
    intro e
    exact ⟨(e.message ++ "\n").toList, by simp [Ending.complaint, toString]⟩
  cases h with
  | arguments hparse hwhy =>
    rename_i why
    refine ⟨by simp [Ending.exitCode, Arguments.Stop.exitCode, hwhy], ?_, ?_⟩
    · cases why <;> simp_all [Ending.output, Arguments.Stop.isError]
    · rw [Ending.complaint, if_pos hwhy, String.toList_append]
      exact List.IsPrefix.trans (by decide) (List.prefix_append _ _)
  | flag | configuration | opening | reading =>
    exact ⟨by simp [Ending.exitCode], rfl, hfailed _⟩

end TagVersion.CommandLine
