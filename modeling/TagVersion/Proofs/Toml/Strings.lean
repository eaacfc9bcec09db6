import Mathlib.Data.List.Induction
import Mathlib.Tactic.Lemma
import TagVersion.Proofs.Lookup
import TagVersion.Toml.Document

/-!
Documents whose own table holds nothing but strings. A header, a key with dots and any other value
leave something in the table that is no string, and what comes later does not take it away. So such
a document is a sequence of statements that give strings to different keys.
-/

namespace TagVersion.Toml

/-- Gives a string to a key without dots. -/
def Statement.give (setting : String × String) : Statement :=
  .assign [setting.1] (.string setting.2)

/-- The string that a statement gives, behind the parts of its key. -/
def Statement.string? : Statement → Option (List String × String)
  | .assign keys (.string text) => some (keys, text)
  | _ => none

lemma Statement.string?_eq_some_iff {statement : Statement} {keys : List String} {text : String} :
    statement.string? = some (keys, text) ↔ statement = .assign keys (.string text) := by
  cases statement with
  | assign keys' value => cases value <;> simp [string?]
  | _ => simp [string?]

namespace Members

/-- The members that hold strings. -/
def ofStrings (settings : List (String × String)) : Members :=
  settings.map fun setting => (setting.1, .string setting.2)

/-- Whether all members hold strings. -/
def Plain (members : Members) : Prop :=
  ∀ key value, (key, value) ∈ members → ∃ text, value = .string text

variable {members after : Members} {key : String} {old value : Value} {path keys : List String}

lemma not_plain (hmem : (key, value) ∈ members) (hvalue : ∀ text, value ≠ .string text) :
    ¬ Plain members := fun h =>
  let ⟨text, htext⟩ := h key value hmem
  hvalue text htext

lemma mem_replace (h : members.lookup key = some old) (value : Value) :
    (key, value) ∈ members.replace key value := by
  obtain ⟨front, back, rfl, -⟩ := List.lookup_eq_some_iff.mp h
  refine List.mem_map.mpr ⟨(key, old), by simp, ?_⟩
  simp

/-- A table that was there before still is there, whatever is in it now. -/
lemma not_plain_replace {origin : Origin} {inner : Members}
    (h : members.lookup key = some old) :
    ¬ Plain (members.replace key (.table origin inner)) :=
  not_plain (mem_replace h _) nofun

lemma not_plain_replace_tables {items : List Members} (h : members.lookup key = some old) :
    ¬ Plain (members.replace key (.tables items)) :=
  not_plain (mem_replace h _) nofun

/-- A header leaves a table, if what it does to the table it names leaves one. -/
lemma not_plain_inside {change : String → Members → Option Members}
    (hchange : ∀ key members after, change key members = some after → ¬ Plain after)
    (h : inside change path members = some after) : ¬ Plain after := by
  unfold inside at h
  split at h
  · cases h
  · exact hchange _ _ _ h
  · split at h
    · obtain ⟨_, -, ⟨⟩⟩ := Option.bind_eq_some_iff.mp h
      exact not_plain (List.mem_append_right _ (.head _)) nofun
    · cases h
    · next hfound =>
      obtain ⟨_, -, ⟨⟩⟩ := Option.bind_eq_some_iff.mp h
      exact not_plain_replace hfound
    · next hfound =>
      obtain ⟨_, -, ⟨⟩⟩ := Option.bind_eq_some_iff.mp h
      exact not_plain_replace_tables hfound
    · cases h

/-- In the document's own table a key with dots leaves a table. -/
lemma of_assign (h : assign value keys members = some after) (hplain : Plain after) :
    ∃ key, keys = [key] ∧ members.lookup key = none ∧ after = members ++ [(key, value)] := by
  unfold assign at h
  split at h
  · cases h
  · next key =>
    split at h
    · next hfree => exact ⟨key, rfl, hfree, (Option.some.inj h).symm⟩
    · cases h
  · split at h
    · obtain ⟨_, -, ⟨⟩⟩ := Option.bind_eq_some_iff.mp h
      exact absurd hplain (not_plain (List.mem_append_right _ (.head _)) nofun)
    · next hfound =>
      obtain ⟨_, -, ⟨⟩⟩ := Option.bind_eq_some_iff.mp h
      exact absurd hplain (not_plain_replace hfound)
    · cases h

lemma not_plain_openTable (h : openTable path members = some after) : ¬ Plain after := by
  refine not_plain_inside (fun key members after h => ?_) h
  split at h
  · cases h
    exact not_plain (List.mem_append_right _ (.head _)) nofun
  · next hfound =>
    cases h
    exact not_plain_replace hfound
  · cases h

lemma not_plain_openNext (h : openNext path members = some after) : ¬ Plain after := by
  refine not_plain_inside (fun key members after h => ?_) h
  split at h
  · cases h
    exact not_plain (List.mem_append_right _ (.head _)) nofun
  · next hfound =>
    cases h
    exact not_plain_replace_tables hfound
  · cases h

lemma of_assignIn (h : assignIn path keys value members = some after) (hplain : Plain after) :
    ∃ key, path = [] ∧ keys = [key] ∧ members.lookup key = none ∧
      after = members ++ [(key, value)] := by
  unfold assignIn at h
  split at h
  · obtain ⟨key, hkeys, hfree, hafter⟩ := of_assign h hplain
    exact ⟨key, rfl, hkeys, hfree, hafter⟩
  · refine absurd hplain (not_plain_inside (fun key members after h => ?_) h)
    split at h
    · next hfound =>
      obtain ⟨_, -, ⟨⟩⟩ := Option.bind_eq_some_iff.mp h
      exact not_plain_replace hfound
    · next hfound =>
      obtain ⟨_, -, ⟨⟩⟩ := Option.bind_eq_some_iff.mp h
      exact not_plain_replace_tables hfound
    · cases h

lemma plain_append_singleton (h : Plain (members ++ [(key, value)])) :
    Plain members ∧ ∃ text, value = .string text :=
  ⟨fun _ _ hmem => h _ _ (List.mem_append_left _ hmem),
    h _ _ (List.mem_append_right _ (.head _))⟩

lemma plain_ofStrings (settings : List (String × String)) : Plain (ofStrings settings) := by
  intro key value hmem
  obtain ⟨setting, -, heq⟩ := List.mem_map.mp hmem
  exact ⟨setting.2, (congrArg Prod.snd heq).symm⟩

lemma ofStrings_injective : Function.Injective ofStrings := by
  refine List.map_injective_iff.mpr fun setting setting' h => ?_
  simpa [Prod.ext_iff] using h

lemma map_fst_ofStrings (settings : List (String × String)) :
    (ofStrings settings).map Prod.fst = settings.map Prod.fst := by
  simp [ofStrings]

end Members

namespace Document

open Members

variable {path path' : List String} {members after : Members} {statement : Statement}
  {statements : List Statement} {settings : List (String × String)}

/-- The statements of a text, in order. -/
def statementsOf? (text : String) : Option (List Statement) :=
  let cs := if text.toList.head? = some mark then text.toList.tail else text.toList
  statements? (cs.length + 2) (cs.length + 2) cs

lemma read?_eq (text : String) : read? text = (statementsOf? text).bind fun statements =>
    (statements.foldlM apply ([], [])).map Prod.snd := by
  show (statementsOf? text).bind _ = _
  congr 1
  funext statements
  cases statements.foldlM apply ([], []) <;> rfl

/-- A statement that leaves nothing but strings has given one to a key without any. -/
lemma of_apply (h : apply (path, members) statement = some (path', after)) (hplain : Plain after) :
    ∃ setting, statement = .give setting ∧ path = [] ∧ path' = [] ∧
      setting.1 ∉ members.map Prod.fst ∧ Plain members ∧
      after = members ++ ofStrings [setting] := by
  cases statement with
  | assign keys value =>
    obtain ⟨_, hassign, ⟨⟩⟩ := Option.bind_eq_some_iff.mp h
    obtain ⟨key, hpath, rfl, hfree, rfl⟩ := of_assignIn hassign hplain
    obtain ⟨hbefore, text, rfl⟩ := plain_append_singleton hplain
    exact ⟨(key, text), rfl, hpath, hpath, lookup_eq_none_iff_notMem.mp hfree, hbefore, rfl⟩
  | header path =>
    obtain ⟨_, hopen, ⟨⟩⟩ := Option.bind_eq_some_iff.mp h
    exact absurd hplain (not_plain_openTable hopen)
  | nextHeader path =>
    obtain ⟨_, hopen, ⟨⟩⟩ := Option.bind_eq_some_iff.mp h
    exact absurd hplain (not_plain_openNext hopen)

lemma apply_give {setting : String × String} (hfree : setting.1 ∉ members.map Prod.fst) :
    apply ([], members) (.give setting) = some ([], members ++ ofStrings [setting]) := by
  have hnone : members.lookup setting.1 = none := lookup_eq_none_iff_notMem.mpr hfree
  simp [apply, Statement.give, assignIn, assign, hnone, ofStrings]

lemma foldlM_apply_append_singleton (start : List String × Members) :
    (statements ++ [statement]).foldlM apply start =
      (statements.foldlM apply start).bind (apply · statement) := by
  rw [List.foldlM_append]
  simp only [List.foldlM_cons, List.foldlM_nil, bind_pure]
  rfl

/-- Strings are given to different keys one after the other. -/
lemma foldlM_give (h : (settings.map Prod.fst).Nodup) :
    (settings.map Statement.give).foldlM apply ([], []) = some ([], ofStrings settings) := by
  induction settings using List.reverseRecOn with
  | nil => rfl
  | append_singleton settings setting ih =>
    rw [List.map_append, List.nodup_append] at h
    obtain ⟨hfirst, -, hother⟩ := h
    have hfree : setting.1 ∉ (ofStrings settings).map Prod.fst := by
      rw [map_fst_ofStrings]
      exact fun hmem => hother _ hmem _ (.head _) rfl
    rw [List.map_append, List.map_singleton, foldlM_apply_append_singleton, ih hfirst,
      Option.bind_some, apply_give hfree]
    simp [ofStrings]

/-- What leaves nothing but strings is a sequence of statements that give them. -/
lemma of_foldlM (h : statements.foldlM apply ([], []) = some (path, members))
    (hplain : Plain members) : path = [] ∧ ∃ settings, (settings.map Prod.fst).Nodup ∧
      statements = settings.map Statement.give ∧ members = ofStrings settings := by
  induction statements using List.reverseRecOn generalizing path members with
  | nil =>
    obtain ⟨rfl, rfl⟩ := Prod.mk.inj (Option.some.inj h)
    exact ⟨rfl, [], .nil, rfl, rfl⟩
  | append_singleton statements statement ih =>
    rw [foldlM_apply_append_singleton] at h
    obtain ⟨⟨path', before⟩, hbefore, hlast⟩ := Option.bind_eq_some_iff.mp h
    obtain ⟨setting, rfl, rfl, rfl, hfree, hplain', rfl⟩ := of_apply hlast hplain
    obtain ⟨-, settings, hnodup, rfl, rfl⟩ := ih hbefore hplain'
    rw [map_fst_ofStrings] at hfree
    refine ⟨rfl, settings ++ [setting], ?_, by simp, by simp [ofStrings]⟩
    rw [List.map_append, List.map_singleton]
    exact hnodup.append (List.nodup_singleton _) (by simpa using hfree)

/-- **Documents of strings.** A document holds nothing but strings just if its statements give
strings to different keys. -/
theorem read?_eq_ofStrings_iff {text : String} :
    read? text = some (ofStrings settings) ↔ (settings.map Prod.fst).Nodup ∧
      statementsOf? text = some (settings.map Statement.give) := by
  rw [read?_eq, Option.bind_eq_some_iff]
  constructor
  · rintro ⟨statements, hstatements, hfold⟩
    obtain ⟨⟨path, members⟩, hrun, rfl⟩ := Option.map_eq_some_iff.mp hfold
    obtain ⟨-, given, hnodup, rfl, hgiven⟩ := of_foldlM hrun (plain_ofStrings settings)
    obtain rfl := ofStrings_injective hgiven
    exact ⟨hnodup, hstatements⟩
  · rintro ⟨hnodup, hstatements⟩
    exact ⟨_, hstatements, by rw [foldlM_give hnodup]; rfl⟩

end Document

end TagVersion.Toml
