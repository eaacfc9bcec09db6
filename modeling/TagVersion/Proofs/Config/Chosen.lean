import Mathlib.Tactic.SplitIfs
import TagVersion.Proofs.Config.Load

/-!
Which files a configuration comes from, and what can be wrong with them. Of all the places for a
file at most two are chosen, one for the user and one for the repository, and nothing else is
looked into. What can be wrong with the two is put into an order: both are read before either is
checked.
-/

namespace TagVersion.Config

open Outcome

/-- Whose settings a file holds. -/
inductive Scope where
  | global
  | repo
deriving DecidableEq, Repr

/-- The places where files are looked for. -/
def Place (candidates : List String) (root : Option String) (path : String) : Prop :=
  path ∈ candidates ∨ ∃ top, root = some top ∧ (path = sharedPath top ∨ path = localPath top)

/-- The files whose settings count: the first candidate that is a file, and the file that is
committed with the repository, or else the one of the clone. -/
inductive Chosen (files : Files) (candidates : List String) (root : Option String) :
    Scope → String → Prop
  | candidate {before after : List String} {path : String} :
      candidates = before ++ path :: after → (files path).isFile →
      (∀ other ∈ before, ¬ (files other).isFile) → Chosen files candidates root .global path
  | committed {top : String} : root = some top → (files (sharedPath top)).isFile →
      Chosen files candidates root .repo (sharedPath top)
  | clone {top : String} : root = some top → ¬ (files (sharedPath top)).isFile →
      (files (localPath top)).isFile → Chosen files candidates root .repo (localPath top)

/-- The settings that a file holds. -/
def Holds {α : Type} (files : Files) (decode : String → Option α) (path : String) (settings : α) :
    Prop :=
  ∃ text, files path = .content (.ofText text) ∧ decode text = some settings

/-- Why no settings can be read from a file. -/
inductive Spoiled {α : Type} (files : Files) (decode : String → Option α) (path : String) :
    Failure → Prop
  | unreadable {why : String} : files path = .unreadable why →
      Spoiled files decode path (.unreadable path why)
  | notText {bytes : Bytes} : files path = .content bytes → (∀ text, bytes ≠ .ofText text) →
      Spoiled files decode path (.unreadable path Files.notText)
  | unparsable {text : String} : files path = .content (.ofText text) → decode text = none →
      Spoiled files decode path (.unparsable path)

/-- The first value among settings that makes no sense. -/
inductive Wrong (tagPrefix log : Option String) : Invalid → Prop
  | tagPrefix {text : String} : tagPrefix = some text → Prefix.ofText? text = none →
      Wrong tagPrefix log (.tagPrefix text)
  | log {directive : String} {why : Log.Refusal} :
      (∀ text, tagPrefix = some text → ∃ p, Prefix.ofText? text = some p) →
      log = some directive → Log.Filter.ofText directive = .error why →
      Wrong tagPrefix log (.log directive why)

/-- What is done with the chosen files. -/
inductive Stage where
  | read (scope : Scope)
  | check (scope : Scope)
deriving DecidableEq, Repr

def Stage.inOrder : List Stage := [.read .global, .read .repo, .check .global, .check .repo]

/-- What is wrong with a chosen file, at the stage that meets with it. The files are looked at each
for itself: both may be at fault. -/
inductive Fault (files : Files) (candidates : List String) (root : Option String) :
    Stage → Failure → Prop
  | readGlobal {path : String} {e : Failure} : Chosen files candidates root .global path →
      Spoiled files Global.ofText? path e → Fault files candidates root (.read .global) e
  | readRepo {path : String} {e : Failure} : Chosen files candidates root .repo path →
      Spoiled files Repo.ofText? path e → Fault files candidates root (.read .repo) e
  | checkGlobal {path : String} {settings : Global} {value : Invalid} :
      Chosen files candidates root .global path → Holds files Global.ofText? path settings →
      Wrong settings.tagPrefix settings.log value →
      Fault files candidates root (.check .global) (.invalid value)
  | checkRepo {path : String} {settings : Repo} {value : Invalid} :
      Chosen files candidates root .repo path → Holds files Repo.ofText? path settings →
      Wrong settings.tagPrefix none value →
      Fault files candidates root (.check .repo) (.invalid value)

variable {files files' : Files} {candidates : List String} {root : Option String} {scope : Scope}
  {path : String} {e : Failure} {c : Config} {α : Type} {decode : String → Option α} {settings : α}

/-! ### Choosing -/

lemma Chosen.isFile (h : Chosen files candidates root scope path) : (files path).isFile := by
  cases h <;> assumption

variable {chosen : Option String}

end TagVersion.Config
