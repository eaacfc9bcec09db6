import Mathlib.Tactic.Lemma
import TagVersion.Config.Load
import TagVersion.Proofs.Outcome

/-!
What a configuration that loads holds: both files have been checked, so the prefixes in them are
prefixes of tags, and the log directive is a filter.
-/

namespace TagVersion.Config

open Outcome

lemma validatePrefix_eq_ok_iff {tagPrefix : Option String} : validatePrefix tagPrefix = .ok () ↔
    ∀ text, tagPrefix = some text → ∃ p, Prefix.ofText? text = some p := by
  cases tagPrefix with
  | none => simp [validatePrefix]
  | some text => cases hp : Prefix.ofText? text <;> simp [validatePrefix, hp]

lemma validatePrefix_of_validate {g : Global} (h : g.validate = .ok ()) :
    validatePrefix g.tagPrefix = .ok () := by
  obtain ⟨_, hprefix, -⟩ := bind_eq_ok_iff.mp h
  exact hprefix

lemma validateLog_eq_ok_iff {directive : Option String} : validateLog directive = .ok () ↔
    ∀ text, directive = some text → ∃ f, Log.Filter.ofText text = .ok f := by
  cases directive with
  | none => simp [validateLog]
  | some text => cases hf : Log.Filter.ofText text <;> simp [validateLog, hf]

lemma validateLog_of_validate {g : Global} (h : g.validate = .ok ()) :
    validateLog g.log = .ok () := by
  obtain ⟨_, -, hlog⟩ := bind_eq_ok_iff.mp h
  exact hlog

/-! ### Reading, then checking -/

/-- The settings of a repository, if there is one. -/
def readRepo? (files : Files) : Option String → Except Failure (Option (Repo × String))
  | some root => readRepo files root
  | none => .ok none

/-- What has been read, once it is checked. -/
def checked (global : Global × Option String) (repo : Option (Repo × String))
    (warnings : List Warning) : Except Failure Config := do
  global.1.validate.mapError .invalid
  if let some (repo, _) := repo then repo.validate.mapError .invalid
  return {
    global := global.1
    globalPath := global.2
    repo := repo.map (·.1)
    repoPath := repo.map (·.2)
    warnings }

variable {files : Files} {candidates : List String} {root : Option String} {c : Config}

lemma loadFrom_eq (files : Files) (candidates : List String) (root : Option String) :
    loadFrom files candidates root = (do
      let global ← readGlobal files candidates
      let repo ← readRepo? files root
      checked global repo ((root.map (shadowed files)).getD [])) := by
  cases root <;> rfl

lemma validate_of_checked {global : Global × Option String} {repo : Option (Repo × String)}
    {warnings : List Warning} (h : checked global repo warnings = .ok c) :
    c.global.validate = .ok () ∧
      ∀ settings, c.repo = some settings → settings.validate = .ok () := by
  obtain ⟨_, hglobal, h⟩ := bind_eq_ok_iff.mp h
  cases repo with
  | none =>
    obtain rfl := Except.ok.inj h
    exact ⟨mapError_eq_ok_iff.mp hglobal, by simp⟩
  | some repo =>
    obtain ⟨_, hrepo, h⟩ := bind_eq_ok_iff.mp h
    obtain rfl := Except.ok.inj h
    refine ⟨mapError_eq_ok_iff.mp hglobal, ?_⟩
    rintro settings ⟨⟩
    exact mapError_eq_ok_iff.mp hrepo

/-- Both files are checked before a configuration is loaded. -/
lemma validate_of_loadFrom (h : loadFrom files candidates root = .ok c) :
    c.global.validate = .ok () ∧
      ∀ settings, c.repo = some settings → settings.validate = .ok () := by
  rw [loadFrom_eq] at h
  obtain ⟨global, -, h⟩ := bind_eq_ok_iff.mp h
  obtain ⟨repo, -, h⟩ := bind_eq_ok_iff.mp h
  exact validate_of_checked h

/-- **A configured prefix is a prefix of tags,** in whichever file it stands. -/
theorem exists_ofText?_of_tagPrefix {text : String} (h : loadFrom files candidates root = .ok c)
    (htext : c.tagPrefix = some text) : ∃ p, Prefix.ofText? text = some p := by
  obtain ⟨hglobal, hrepo⟩ := validate_of_loadFrom h
  rcases Option.or_eq_some_iff.mp htext with hfound | ⟨-, hfound⟩
  · obtain ⟨settings, hsettings, hprefix⟩ := Option.bind_eq_some_iff.mp hfound
    exact validatePrefix_eq_ok_iff.mp (hrepo settings hsettings) text hprefix
  · exact validatePrefix_eq_ok_iff.mp (validatePrefix_of_validate hglobal) text hfound

/-- **A configured log directive is a filter** as it stands. -/
theorem exists_ofText_of_log {directive : String} (h : loadFrom files candidates root = .ok c)
    (hlog : c.log = some directive) : ∃ f, Log.Filter.ofText directive = .ok f := by
  have hvalid := validateLog_of_validate (validate_of_loadFrom h).1
  exact validateLog_eq_ok_iff.mp hvalid directive hlog

end TagVersion.Config
