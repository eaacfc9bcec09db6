import TagVersion.Proofs.Config.Load
import TagVersion.Proofs.Details
import TagVersion.Proofs.Log.Trimming
import TagVersion.Proofs.Resolve.Sharing

/-!
A configuration that loads can be used. Its prefix is one that the resolver takes, and its log
directive is one that the choice of a filter takes, though the directive is checked with the white
space at its ends and used without it.
-/

namespace TagVersion

namespace Reading

variable {ε ε' α β : Type} {P : ε → Prop} {x : Reading ε α}

/-- A reading has no failures but those of some kind. -/
def FailsBy (P : ε → Prop) (x : Reading ε α) : Prop := ∀ e, x.outcome = .error e → P e

lemma FailsBy.bind {f : α → Reading ε β} (hx : x.FailsBy P) (hf : ∀ a, (f a).FailsBy P) :
    (x >>= f).FailsBy P := by
  intro e he
  rw [outcome_bind] at he
  cases hout : x.outcome with
  | error e' =>
    rw [hout] at he
    obtain rfl := Except.error.inj he
    exact hx e' hout
  | ok a =>
    rw [hout] at he
    exact hf a e he

lemma FailsBy.pure (a : α) : FailsBy P (Pure.pure a) := nofun

lemma FailsBy.mapError {f : ε' → ε} (hf : ∀ e, P (f e)) (y : Reading ε' α) :
    FailsBy P (y.mapError f) := by
  intro e he
  obtain ⟨e', -, rfl⟩ := Outcome.mapError_eq_error_iff.mp he
  exact hf e'

end Reading

/-- The prefix is not at fault. -/
def VersionError.SparesPrefix : VersionError → Prop
  | .invalidPrefix _ => False
  | .malformedDescription _ | .repository _ => True

lemma Details.sparesPrefix_of_ofDescription {p : Prefix} {description : Option Description}
    {isClean : Bool} {branch : String} {e : VersionError}
    (h : ofDescription p description isClean branch = .error e) : e.SparesPrefix := by
  cases description with
  | none => simp [ofDescription] at h
  | some d =>
    rw [ofDescription_some, Outcome.map_eq_error_iff] at h
    rw [named_eq_error h]
    trivial

/-- Once a prefix has been read, resolving does not complain of it. -/
lemma Repository.sparesPrefix_resolve (r : Repository) (p : Prefix) :
    (r.resolve p).FailsBy VersionError.SparesPrefix := by
  have hrepository : ∀ e, VersionError.SparesPrefix (.repository e) := fun _ => trivial
  have hrest : ∀ description isClean, Reading.FailsBy VersionError.SparesPrefix (do
      let branch ← r.askBranch.mapError .repository
      let details ← Reading.ofExcept (Details.ofDescription p description isClean branch)
      Reading.log ⟨.debug, "gitversion::version"⟩
      return details) := by
    intro description isClean
    refine (Reading.FailsBy.mapError hrepository _).bind fun branch => ?_
    refine Reading.FailsBy.bind (fun e he => Details.sparesPrefix_of_ofDescription he) fun _ => ?_
    exact Reading.FailsBy.bind nofun fun _ => .pure _
  unfold resolve
  refine (Reading.FailsBy.mapError hrepository _).bind fun description => ?_
  cases description with
  | none => exact (Reading.FailsBy.pure false).bind (hrest none)
  | some d => exact (Reading.FailsBy.mapError hrepository _).bind (hrest (some d))

/-- A resolver complains of no prefix that can be read. -/
lemma Resolver.sparesPrefix_answer {r : Resolver} {c : Call} {p : Prefix}
    (hp : Prefix.ofText? c.start = some p) {e : VersionError} (he : (r.answer c).2 = .error e) :
    e.SparesPrefix := by
  rcases c.found with hstart | ⟨_, e', hstart, htree⟩ | ⟨p, repository, root, hfinds⟩
  · simp [hp] at hstart
  · rw [answer_of_tree hstart htree] at he
    obtain rfl := Except.error.inj he
    trivial
  · cases hpeek : r.cache.peek (.of root p) with
    | some d =>
      simp [answer_of_peek hfinds hpeek] at he
    | none =>
      rw [answer_of_not_peek hfinds hpeek] at he
      exact repository.sparesPrefix_resolve p e he

namespace Log.Filter

/-- A source that asks for no filter: there is none, or its text is blank, or is no filter once the
white space at its ends is off. -/
def Unusable (source : Option String) : Prop :=
  ∀ text, source = some text → Blank.trim text.toList = [] ∨
    ∃ why, ofText (String.ofList (Blank.trim text.toList)) = .error why

lemma ofSource?_of_unusable {source : Option String} (h : Unusable source) :
    ofSource? source = none := by
  cases source with
  | none => rfl
  | some text =>
    rcases h text rfl with hblank | ⟨why, hwhy⟩
    · simp [ofSource?, hblank]
    · simp [ofSource?, hwhy, Except.toOption]

lemma choose_of_unusable {environment : Option String} (h : Unusable environment)
    (configured : Option String) :
    choose false environment configured = (ofSource? configured).getD (upTo .warn) := by
  rw [choose, ofSource?_of_unusable h, Option.none_or]
  rfl

lemma ofSource?_of_blank {text : String} (h : Blank.trim text.toList = []) :
    ofSource? (some text) = none := by
  simp [ofSource?, h]

lemma ofSource?_of_ofText {text : String} {f : Filter} (hne : Blank.trim text.toList ≠ [])
    (hf : ofText (String.ofList (Blank.trim text.toList)) = .ok f) :
    ofSource? (some text) = some f := by
  simp [ofSource?, hne, hf, Except.toOption]

end Log.Filter

namespace Config

open Log

variable {files : Files} {candidates : List String} {root : Option String} {c : Config}

/-- **A configuration that loads can be used.** Its prefix, if it has one, can be read, so that no
resolver ever complains of it, whatever directory is asked for and whatever it has kept. Its log
directive, if it has one, makes the filter of the run where the environment asks for none: the
filter of the directive without the white space at its ends, or of warnings where nothing else is
left. -/
theorem usable_of_loadFrom (h : loadFrom files candidates root = .ok c) :
    (∀ text, c.tagPrefix = some text → (∃ p, Prefix.ofText text = .ok p) ∧
      ∀ (r : Resolver) (s : Surroundings) (directory : String) (lines : List Line) (why : String),
        ((r.resolve s directory c.tagPrefix).run lines).1.2 ≠ .error (.invalidPrefix why)) ∧
    ∀ directive, c.log = some directive → ∀ environment, Filter.Unusable environment →
      let trimmed := String.ofList (Blank.trim directive.toList)
      if trimmed = "" then Filter.choose false environment c.log = Filter.upTo .warn
      else Filter.ofText trimmed = .ok (Filter.choose false environment c.log) := by
  refine ⟨fun text htext => ?_, fun directive hlog environment hunusable => ?_⟩
  · obtain ⟨p, hp⟩ := exists_ofText?_of_tagPrefix h htext
    refine ⟨⟨p, by rw [Prefix.ofText, hp]⟩, fun r s directory lines why hwhy => ?_⟩
    let call : Resolver.Call := ⟨s, directory, c.tagPrefix⟩
    have hstart : Prefix.ofText? call.start = some p := by
      show Prefix.ofText? (c.tagPrefix.getD "") = some p
      rw [htext, Option.getD_some, hp]
    rw [Resolver.run_resolve_eq_answer r call lines] at hwhy
    exact Resolver.sparesPrefix_answer hstart hwhy
  · intro trimmed
    obtain ⟨f, hf⟩ := exists_ofText_of_log h hlog
    obtain ⟨f', hf'⟩ := Filter.exists_ofText_trim hf
    have hempty : trimmed = "" ↔ Blank.trim directive.toList = [] := by
      rw [← String.toList_inj]
      simp [trimmed]
    rw [Filter.choose_of_unusable hunusable, hlog]
    split_ifs with hblank
    · rw [Filter.ofSource?_of_blank (hempty.mp hblank)]
      rfl
    · rw [Filter.ofSource?_of_ofText (hempty.not.mp hblank) hf']
      exact hf'

/-- One file, with a prefix, and with a directive that has white space behind it. -/
def spacious : Files := fun path =>
  if path = "/c.toml" then .content (.ofText "prefix = 'app@'\nlog = 'app=debug, git '")
  else .absent

lemma readGlobal_spacious : readGlobal spacious ["/none", "/c.toml"] =
    .ok (⟨some "app@", some "app=debug, git "⟩, some "/c.toml") := by
  have hread : Global.ofText? "prefix = 'app@'\nlog = 'app=debug, git '" =
      some ⟨some "app@", some "app=debug, git "⟩ := by decide +kernel
  have hfind : ["/none", "/c.toml"].find? (fun path => (spacious path).isFile) =
      some "/c.toml" := by
    simp [spacious, Source.isFile]
  have htext : spacious.readText "/c.toml" = .ok "prefix = 'app@'\nlog = 'app=debug, git '" := by
    simp only [Files.readText, spacious, if_true, Bytes.text?_ofText]
  simp only [readGlobal, hfind, readFile, htext, hread, Except.mapError, bind, Except.bind, pure,
    Except.pure]

theorem usable_of_loadFrom_spacious :
    ∃ c, loadFrom spacious ["/none", "/c.toml"] none = .ok c ∧
      c.tagPrefix = some "app@" ∧ (∃ p, Prefix.ofText "app@" = .ok p) ∧
      c.log = some "app=debug, git " ∧ Filter.Unusable (some "app=loud") ∧
      Filter.ofText "app=debug, git" = .ok (Filter.choose false (some "app=loud") c.log) := by
  have hload : loadFrom spacious ["/none", "/c.toml"] none =
      .ok { global := ⟨some "app@", some "app=debug, git "⟩, globalPath := some "/c.toml" } := by
    rw [loadFrom_eq, readGlobal_spacious]
    rfl
  have hunusable : Filter.Unusable (some "app=loud") := by
    rintro text ⟨⟩
    exact .inr ⟨.level, by decide⟩
  obtain ⟨hstart, hlog⟩ := usable_of_loadFrom hload
  exact ⟨_, hload, rfl, (hstart "app@" rfl).1, rfl, hunusable, hlog _ rfl _ hunusable⟩

end Config

end TagVersion
