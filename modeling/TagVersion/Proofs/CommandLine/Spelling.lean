import Mathlib.Data.List.Perm.Basic
import TagVersion.CommandLine.Arguments
import TagVersion.Proofs.Outcome

/-!
How arguments are written down, and that they are read back. Flags stand before the command word or
behind it, in any order, a value in the word of its flag or in one of its own. The invariant of
reading is `Given.Collects`: what has been taken down so far is just what has been spelled.
-/

namespace TagVersion

namespace Command

/-- The word of a command. -/
def word : Command → String
  | printVersion => "print-version"
  | details _ => "details"

/-- What a command is by its word alone. -/
def bare : Command → Command
  | printVersion => .printVersion
  | details _ => .details false

end Command

namespace Arguments

def ValueFlag.name : ValueFlag → String
  | .cwd => "cwd"
  | .tagPrefix => "prefix"

def Switch.name : Switch → String
  | .debug => "debug"
  | .json => "json"

/-- A flag that is given, with its value if it takes one. -/
inductive Setting where
  | value (flag : ValueFlag) (text : String)
  | switch (flag : Switch)
deriving DecidableEq

namespace Setting

def flag : Setting → Flag
  | value flag _ => .value flag
  | switch flag => .switch flag

def name : Setting → String
  | value flag _ => flag.name
  | switch flag => flag.name

end Setting

/-- The words that spell a setting. Any value may stand behind a `=`. In a word of its own it stands
if it does not start with a hyphen, or is one. -/
inductive Spells : Setting → List String → Prop where
  | joined (flag : ValueFlag) (text : String) :
      Spells (.value flag text) ["--" ++ flag.name ++ "=" ++ text]
  | apart (flag : ValueFlag) (text : String) : (text.toList.head? = some '-' → text = "-") →
      Spells (.value flag text) ["--" ++ flag.name, text]
  | alone (flag : Switch) : Spells (.switch flag) ["--" ++ flag.name]

/-- The words that spell settings, one behind the other. -/
inductive SpellsAll : List Setting → List String → Prop where
  | nil : SpellsAll [] []
  | cons {setting settings words rest} : Spells setting words → SpellsAll settings rest →
      SpellsAll (setting :: settings) (words ++ rest)

/-- A command line with settings before and behind the command word. Without that word there is
one place only. -/
inductive Writes : Option Command → List Setting → List Setting → List String → Prop where
  | bare {outer words} : SpellsAll outer words → Writes none outer [] words
  | led (command : Command) {outer inner words rest} : SpellsAll outer words →
      SpellsAll inner rest → Writes (some command) outer inner (words ++ command.word :: rest)

/-- The value that is given to a flag. -/
def value? (a : Arguments) : ValueFlag → Option String
  | .cwd => a.cwd
  | .tagPrefix => a.tagPrefix

/-- What is to be written down. -/
def settings (a : Arguments) : List Setting :=
  a.cwd.toList.map (.value .cwd) ++ a.tagPrefix.toList.map (.value .tagPrefix) ++
    (if a.debug then [.switch .debug] else []) ++
    if a.command = some (.details true) then [.switch .json] else []

/-- Settings on one side of the command word: none is given twice, and a directory has a name. -/
structure OneSide (settings : List Setting) : Prop where
  once : (settings.map Setting.flag).Nodup
  named : .value .cwd "" ∉ settings

namespace OneSide

variable {settings settings' : List Setting}

lemma left (h : OneSide (settings ++ settings')) : OneSide settings where
  once := h.once.sublist ((List.sublist_append_left _ _).map _)
  named hmem := h.named (List.mem_append_left _ hmem)

lemma right (h : OneSide (settings ++ settings')) : OneSide settings' where
  once := h.once.sublist ((List.sublist_append_right _ _).map _)
  named hmem := h.named (List.mem_append_right _ hmem)

lemma flag_ne {setting setting' : Setting} (h : OneSide (settings ++ settings'))
    (hmem : setting ∈ settings) (hmem' : setting' ∈ settings') :
    setting.flag ≠ setting'.flag := by
  have honce := h.once
  rw [List.map_append, List.nodup_append] at honce
  exact honce.2.2 _ (List.mem_map_of_mem hmem) _ (List.mem_map_of_mem hmem')

lemma perm (h : OneSide settings) (hperm : settings'.Perm settings) : OneSide settings' where
  once := (hperm.map _).nodup_iff.mpr h.once
  named hmem := h.named (hperm.mem_iff.mp hmem)

end OneSide

/-- Settings that may be given with a command. -/
structure Proper (command : Option Command) (outer inner : List Setting) : Prop where
  before : OneSide outer
  behind : OneSide inner
  notBefore : .switch .json ∉ outer
  json : .switch .json ∈ inner ↔ command = some (.details true)

/-- What settings before and behind the command word mean: of a flag that is given on both sides,
the value behind it. -/
structure Denotes (command : Option Command) (outer inner : List Setting) (a : Arguments) :
    Prop where
  command : a.command = command
  value : ∀ flag text, a.value? flag = some text ↔ .value flag text ∈ inner ∨
    .value flag text ∈ outer ∧ ∀ other, .value flag other ∉ inner
  debug : a.debug = true ↔ .switch .debug ∈ inner ∨ .switch .debug ∈ outer

/-! ### Words -/

section

variable {level : Level} {command : Command} {name text word : String}
  {words rest : List String} {setting : Setting} {settings seen : List Setting} {s s' s'' : State}
  {g g' : Given}

lemma takeWhile_name {cs : List Char} (h : '=' ∉ cs) (rest : List Char) :
    (cs ++ rest).takeWhile (· != '=') = cs ++ rest.takeWhile (· != '=') := by
  refine List.takeWhile_append_of_pos fun c hc => bne_iff_ne.mpr ?_
  rintro rfl
  exact h hc

lemma splitLong_name {cs : List Char} (h : '=' ∉ cs) :
    splitLong cs = .long (String.ofList cs) none := by
  have htake : cs.takeWhile (· != '=') = cs := by simpa using takeWhile_name h []
  simp [splitLong, htake]

lemma splitLong_joined {cs value : List Char} (h : '=' ∉ cs) :
    splitLong (cs ++ '=' :: value) =
      .long (String.ofList cs) (some (String.ofList value)) := by
  have htake : (cs ++ '=' :: value).takeWhile (· != '=') = cs := by
    simpa using takeWhile_name h ('=' :: value)
  simp [splitLong, htake]

/-- Two hyphens with something behind them. -/
lemma shape_dashes {cs : List Char} (hne : cs ≠ []) (h : word.toList = '-' :: '-' :: cs) :
    shape word = splitLong cs := by
  obtain ⟨c, cs, rfl⟩ := List.exists_cons_of_ne_nil hne
  simp [shape, h]

lemma toList_name (setting : Setting) :
    setting.name.toList ≠ [] ∧ '=' ∉ setting.name.toList := by
  rcases setting with ⟨_ | _, text⟩ | _ | _ <;>
    simp [Setting.name, ValueFlag.name, Switch.name]

lemma shape_name (setting : Setting) : shape ("--" ++ setting.name) = .long setting.name none := by
  obtain ⟨hne, hname⟩ := toList_name setting
  rw [shape_dashes hne (by simp), splitLong_name hname, String.ofList_toList]

lemma shape_joined (setting : Setting) (text : String) :
    shape ("--" ++ setting.name ++ "=" ++ text) = .long setting.name (some text) := by
  obtain ⟨hne, hname⟩ := toList_name setting
  have hword : ("--" ++ setting.name ++ "=" ++ text).toList =
      '-' :: '-' :: (setting.name.toList ++ '=' :: text.toList) := by simp
  rw [shape_dashes (by simp) hword, splitLong_joined hname, String.ofList_toList,
    String.ofList_toList]

lemma shape_plain (h : text.toList.head? = some '-' → text = "-") : shape text = .plain := by
  by_cases hhead : text.toList.head? = some '-'
  · rw [h hhead]
    rfl
  · unfold shape
    split <;> simp_all

/-- Flags are known by their names, but for `json` behind `details` only. -/
lemma long?_name (hjson : setting = .switch .json → ∃ json, level = .inside (.details json)) :
    level.long? setting.name = some setting.flag := by
  rcases setting with ⟨_ | _, text⟩ | _ | _
  · rfl
  · rfl
  · rfl
  · obtain ⟨json, rfl⟩ := hjson rfl
    rfl

/-! ### What has been taken down -/

/-- The value that has been taken down for a flag. -/
def Given.value? (g : Given) : ValueFlag → Option String
  | .cwd => g.cwd
  | .tagPrefix => g.tagPrefix

def Given.isOn (g : Given) : Switch → Bool
  | .debug => g.debug
  | .json => g.json

/-- Just these settings have been taken down. -/
structure Given.Collects (g : Given) (settings : List Setting) : Prop where
  value : ∀ flag text, g.value? flag = some text ↔ .value flag text ∈ settings
  switch : ∀ flag, g.isOn flag = true ↔ .switch flag ∈ settings

lemma Given.collects_nil : Given.Collects {} [] where
  value flag text := by cases flag <;> simp [Given.value?]
  switch flag := by cases flag <;> simp [Given.isOn]

lemma Given.Collects.value?_eq_none_iff {flag : ValueFlag} (h : g.Collects seen) :
    g.value? flag = none ↔ ∀ text, .value flag text ∉ seen := by
  simp [Option.eq_none_iff_forall_ne_some, h.value]

lemma Given.assign_of_value? {flag : ValueFlag} (h : g.value? flag = none)
    (hcwd : flag = .cwd → text ≠ "") :
    ∃ g', g.assign text flag = .ok g' ∧ g'.value? flag = some text ∧
      (∀ other, other ≠ flag → g'.value? other = g.value? other) ∧ g'.isOn = g.isOn := by
  cases flag with
  | cwd =>
    have hnone : g.cwd = none := h
    refine ⟨{ g with cwd := some text }, ?_, rfl, ?_, rfl⟩
    · simp [Given.assign, hnone, hcwd rfl]
    · rintro (_ | _) hother
      · exact absurd rfl hother
      · rfl
  | tagPrefix =>
    have hnone : g.tagPrefix = none := h
    refine ⟨{ g with tagPrefix := some text }, ?_, rfl, ?_, rfl⟩
    · simp [Given.assign, hnone]
    · rintro (_ | _) hother
      · rfl
      · exact absurd rfl hother

lemma Given.switchOn_of_isOn {flag : Switch} (h : g.isOn flag = false) :
    ∃ g', g.switchOn flag = .ok g' ∧ g'.isOn flag = true ∧
      (∀ other, other ≠ flag → g'.isOn other = g.isOn other) ∧ g'.value? = g.value? := by
  cases flag with
  | debug =>
    have hoff : g.debug = false := h
    refine ⟨{ g with debug := true }, by simp [Given.switchOn, hoff], rfl, ?_, rfl⟩
    rintro (_ | _) hother
    · exact absurd rfl hother
    · rfl
  | json =>
    have hoff : g.json = false := h
    refine ⟨{ g with json := true }, by simp [Given.switchOn, hoff], rfl, ?_, rfl⟩
    rintro (_ | _) hother
    · rfl
    · exact absurd rfl hother

/-- Takes down a setting. -/
def Given.take (g : Given) : Setting → Except Stop Given
  | .value flag text => g.assign text flag
  | .switch flag => g.switchOn flag

/-- **What a setting adds**, if its flag has not been given before. -/
lemma Given.Collects.take (h : g.Collects seen) (hnot : setting.flag ∉ seen.map Setting.flag)
    (hnamed : setting ≠ .value .cwd "") :
    ∃ g', g.take setting = .ok g' ∧ g'.Collects (seen ++ [setting]) := by
  cases setting with
  | value flag text =>
    have hnone : g.value? flag = none :=
      h.value?_eq_none_iff.mpr fun other hother => hnot (List.mem_map.mpr ⟨_, hother, rfl⟩)
    have hcwd : flag = .cwd → text ≠ "" := by
      rintro rfl rfl
      exact hnamed rfl
    obtain ⟨g', hg', hvalue, hothers, hon⟩ := Given.assign_of_value? hnone hcwd
    refine ⟨g', hg', fun other value => ?_, fun other => ?_⟩
    · rw [List.mem_append, ← h.value, List.mem_singleton]
      by_cases hother : other = flag
      · subst hother
        simp [hvalue, hnone, eq_comm]
      · simp [hothers other hother, hother]
    · rw [hon, h.switch]
      simp
  | switch flag =>
    have hoff : g.isOn flag = false := by
      refine Bool.eq_false_iff.mpr fun hon => hnot ?_
      exact List.mem_map.mpr ⟨_, (h.switch flag).mp hon, rfl⟩
    obtain ⟨g', hg', hon, hothers, hvalue⟩ := Given.switchOn_of_isOn hoff
    refine ⟨g', hg', fun other value => ?_, fun other => ?_⟩
    · rw [hvalue, h.value]
      simp
    · rw [List.mem_append, ← h.switch, List.mem_singleton]
      by_cases hother : other = flag
      · subst hother
        simp [hon]
      · simp [hothers other hother, hother]

/-! ### Reading -/

/-- Nothing is missing behind these words: a flag that waits for its value has it. -/
structure State.Settles (s : State) (g : Given) : Prop where
  settle : s.settle = .ok g
  notAwaiting : s.isAwaiting = false

/-- Words that are taken one after the other, each as a flag or as a value. -/
inductive Takes (level : Level) : State → List String → State → Prop where
  | nil {s : State} : Takes level s [] s
  | cons {s s' s'' : State} {word : String} {words : List String} : shape word ≠ .dashes →
      (s.isAwaiting = true ∨ shape word ≠ .plain) → s.word level word = .ok (some s') →
      Takes level s' words s'' → Takes level s (word :: words) s''

lemma Takes.cons_long {attached : Option String} (hshape : shape word = .long name attached)
    (hword : s.word level word = .ok (some s')) (h : Takes level s' words s'') :
    Takes level s (word :: words) s'' :=
  .cons (by simp [hshape]) (.inr (by simp [hshape])) hword h

lemma Takes.append (h : Takes level s words s') (h' : Takes level s' rest s'') :
    Takes level s (words ++ rest) s'' := by
  induction h with
  | nil => exact h'
  | cons hdashes hplain hword _ ih => exact .cons hdashes hplain hword (ih h')

lemma Takes.inside (h : Takes (.inside command) s words s') :
    inside command s (words ++ rest) = inside command s' rest := by
  induction h with
  | nil => rfl
  | cons hdashes _ hword _ ih =>
    rw [List.cons_append, Arguments.inside, if_neg hdashes, hword]
    exact ih

/-- Commands and the word that asks for help are plain words. -/
lemma shape_of_command? (h : (command? word).isSome = true ∨ word = helpWord) :
    shape word = .plain := by
  rcases h with h | rfl
  · unfold command? at h
    split at h
    · rfl
    · rfl
    · cases h
  · rfl

lemma top_cons (hdashes : shape word ≠ .dashes) (hplain : s.isAwaiting = true ∨ shape word ≠ .plain)
    (hword : s.word .top word = .ok (some s')) : top s (word :: rest) = top s' rest := by
  -- A word that is taken is no command: either a flag waits for it, or it starts with a hyphen.
  have hcommand : (if s.isAwaiting = true then none else command? word) = none := by
    split_ifs with hawaiting
    · rfl
    · refine Option.not_isSome_iff_eq_none.mp fun hsome => ?_
      exact hplain.resolve_left hawaiting (shape_of_command? (.inl hsome))
  have hhelp : ¬ (!s.isAwaiting && decide (word = helpWord)) = true := by
    intro hhelp
    obtain ⟨hawaiting, hword⟩ := Bool.and_eq_true_iff.mp hhelp
    refine hplain.resolve_left (by simpa using hawaiting) (shape_of_command? (.inr ?_))
    exact of_decide_eq_true hword
  rw [top.eq_def]
  simp only [hcommand]
  rw [if_neg hhelp, if_neg hdashes, hword]
  rfl

lemma Takes.top (h : Takes .top s words s') : top s (words ++ rest) = top s' rest := by
  induction h with
  | nil => rfl
  | cons hdashes hplain hword _ ih => rw [List.cons_append, top_cons hdashes hplain hword, ih]

lemma State.Settles.flag_value {flag : ValueFlag} (hs : s.Settles g)
    (h : g.assign text flag = .ok g') :
    s.flag (.value flag) (some text) = .ok { given := g' } := by
  simp [State.flag, hs.settle, h, bind, Except.bind, pure, Except.pure]

lemma State.Settles.flag_awaiting {flag : ValueFlag} (hs : s.Settles g) :
    s.flag (.value flag) none = .ok { given := g, pending := .awaiting flag } := by
  simp [State.flag, hs.settle, bind, Except.bind, pure, Except.pure]

lemma State.Settles.flag_switch {flag : Switch} (hs : s.Settles g)
    (h : g.switchOn flag = .ok g') : s.flag (.switch flag) none = .ok { given := g' } := by
  simp [State.flag, hs.settle, h, bind, Except.bind, pure, Except.pure]

lemma State.word_long {attached : Option String} (hshape : shape word = .long setting.name attached)
    (hlong : level.long? setting.name = some setting.flag)
    (h : s.flag setting.flag attached = .ok s') : s.word level word = .ok (some s') := by
  simp [State.word, hshape, hlong, h, bind, Except.bind, pure, Except.pure]

/-- **Reading one setting.** -/
lemma Spells.takes (h : Spells setting words) (hs : s.Settles g) (htake : g.take setting = .ok g')
    (hlong : level.long? setting.name = some setting.flag) :
    ∃ s', Takes level s words s' ∧ s'.Settles g' := by
  cases h with
  | joined flag text =>
    have hshape := shape_joined (.value flag text) text
    have hword := State.word_long hshape hlong (hs.flag_value htake)
    exact ⟨_, .cons_long hshape hword .nil, rfl, rfl⟩
  | apart flag text htext =>
    -- The value is taken down later only, but what it settles to is known when it has been read.
    have hshape := shape_name (.value flag text)
    have hplain := shape_plain htext
    have hword := State.word_long hshape hlong hs.flag_awaiting
    have hvalue : State.word { given := g, pending := .awaiting flag } level text =
        .ok (some { given := g, pending := .complete flag text }) := by
      simp [State.word, hplain]
    exact ⟨_, .cons_long hshape hword (.cons (by simp [hplain]) (.inl rfl) hvalue .nil), htake, rfl⟩
  | alone flag =>
    have hshape := shape_name (.switch flag)
    have hword := State.word_long hshape hlong (hs.flag_switch htake)
    exact ⟨_, .cons_long hshape hword .nil, rfl, rfl⟩

/-- **Reading settings.** Whatever has been taken down, these are added to it. -/
lemma SpellsAll.takes (h : SpellsAll settings words) (hs : s.Settles g) (hg : g.Collects seen)
    (hside : OneSide (seen ++ settings))
    (hlong : ∀ setting ∈ settings, level.long? setting.name = some setting.flag) :
    ∃ s' g', Takes level s words s' ∧ s'.Settles g' ∧ g'.Collects (seen ++ settings) := by
  induction h generalizing s g seen with
  | nil => exact ⟨s, g, .nil, hs, by rwa [List.append_nil]⟩
  | @cons setting settings words rest hspells _ ih =>
    obtain ⟨hsetting, hsettings⟩ := List.forall_mem_cons.mp hlong
    rw [List.append_cons] at hside ⊢
    have hnot : setting.flag ∉ seen.map Setting.flag := by
      intro hmem
      obtain ⟨other, hother, hflag⟩ := List.mem_map.mp hmem
      exact hside.left.flag_ne hother (.head _) hflag
    have hnamed : setting ≠ .value .cwd "" := fun heq => hside.named (by simp [heq])
    obtain ⟨g', htake, hg'⟩ := hg.take hnot hnamed
    obtain ⟨s', hwords, hs'⟩ := hspells.takes hs htake hsetting
    obtain ⟨s'', g'', hrest, hs'', hg''⟩ := ih hs' hg' hside hsettings
    exact ⟨s'', g'', hwords.append hrest, hs'', hg''⟩

lemma State.settles_nil : State.Settles {} {} := ⟨rfl, rfl⟩

/-- The flags behind a command word. -/
lemma inside_of_spells (h : SpellsAll settings words) (hside : OneSide settings)
    (hjson : .switch .json ∈ settings → ∃ json, command = .details json) :
    ∃ g, inside command {} words = .ok g ∧ g.Collects settings := by
  have hlong : ∀ setting ∈ settings,
      (Level.inside command).long? setting.name = some setting.flag := by
    refine fun setting hmem => long?_name fun heq => ?_
    obtain ⟨json, rfl⟩ := hjson (heq ▸ hmem)
    exact ⟨json, rfl⟩
  obtain ⟨s, g, hwords, hs, hg⟩ := h.takes State.settles_nil Given.collects_nil hside hlong
  refine ⟨g, ?_, hg⟩
  rw [← List.append_nil words, hwords.inside, inside]
  exact hs.settle

/-- The flags before a command word, or without one. -/
lemma top_of_spells (h : SpellsAll settings words) (hside : OneSide settings)
    (hjson : .switch .json ∉ settings) (rest : List String) :
    ∃ s g, parse (words ++ rest) = top s rest ∧ s.Settles g ∧ g.Collects settings := by
  have hlong : ∀ setting ∈ settings, Level.top.long? setting.name = some setting.flag :=
    fun setting hmem => long?_name fun heq => absurd (heq ▸ hmem) hjson
  obtain ⟨s, g, hwords, hs, hg⟩ := h.takes State.settles_nil Given.collects_nil hside hlong
  exact ⟨s, g, hwords.top, hs, hg⟩

lemma command?_word (command : Command) : command? command.word = some command.bare := by
  cases command <;> rfl

/-- **Where the command word stands**, the flags behind it are read, and those before it settled. -/
lemma top_word (hs : s.Settles g) (h : inside command.bare {} words = .ok g') :
    top s (command.word :: words) = .ok (merge g g' command) := by
  have hmerge : merge g g' command.bare = merge g g' command := by cases command <;> rfl
  rw [top.eq_def]
  simp only [hs.notAwaiting, Bool.false_eq_true, if_false, command?_word, h, hs.settle, ← hmerge]
  rfl

end

/-! ### What is read back -/

section

variable {command : Option Command} {outer inner : List Setting} {words : List String}
  {a b : Arguments} {g g' : Given}

lemma denotes_bare (h : g.Collects outer) :
    Denotes none outer [] { cwd := g.cwd, tagPrefix := g.tagPrefix, debug := g.debug } where
  command := rfl
  value flag text := by
    rw [← h.value]
    cases flag <;> simp [Given.value?, value?]
  debug := (h.switch .debug).trans (by simp)

lemma value?_merge (g g' : Given) (command : Command) (flag : ValueFlag) :
    (merge g g' command).value? flag = (g'.value? flag).or (g.value? flag) := by
  cases flag <;> rfl

lemma denotes_merge {command : Command} (h : g.Collects outer) (h' : g'.Collects inner)
    (hjson : .switch .json ∈ inner ↔ some command = some (.details true)) :
    Denotes (some command) outer inner (merge g g' command) where
  command := by
    cases command with
    | printVersion => rfl
    | details json =>
      have hjson' : g'.json = true ↔ json = true :=
        ((h'.switch .json).trans hjson).trans (by simp)
      simp [merge, Bool.eq_iff_iff.mpr hjson']
  value flag text := by
    rw [value?_merge, Option.or_eq_some_iff, h'.value, h.value, h'.value?_eq_none_iff, and_comm]
  debug := by
    rw [← h'.switch, ← h.switch]
    exact Bool.or_eq_true_iff

lemma Denotes.unique (h : Denotes command outer inner a) (h' : Denotes command outer inner b) :
    a = b := by
  have hvalue : ∀ flag, a.value? flag = b.value? flag := fun flag =>
    Option.ext fun text => (h.value flag text).trans (h'.value flag text).symm
  have hdebug : a.debug = b.debug := Bool.eq_iff_iff.mpr (h.debug.trans h'.debug.symm)
  have hcommand := h.command.trans h'.command.symm
  obtain ⟨cwd, tagPrefix, debug, command⟩ := a
  obtain ⟨cwd', tagPrefix', debug', command'⟩ := b
  simp only [mk.injEq]
  exact ⟨hvalue .cwd, hvalue .tagPrefix, hdebug, hcommand⟩

/-- **Reading a command line.** -/
lemma parse_of_writes (hproper : Proper command outer inner)
    (h : Writes command outer inner words) :
    ∃ a, parse words = .ok a ∧ Denotes command outer inner a := by
  obtain ⟨hbefore, hbehind, hnot, hjson⟩ := hproper
  cases h with
  | bare hwords =>
    obtain ⟨s, g, htop, hs, hg⟩ := top_of_spells hwords hbefore hnot []
    refine ⟨_, ?_, denotes_bare hg⟩
    rw [← List.append_nil words, htop, top.eq_def]
    simp only [hs.settle]
    rfl
  | led command hwords hrest =>
    obtain ⟨s, g, htop, hs, hg⟩ := top_of_spells hwords hbefore hnot _
    have hdetails : .switch .json ∈ inner → ∃ json, command.bare = .details json := fun hmem => by
      rw [Option.some.inj (hjson.mp hmem)]
      exact ⟨false, rfl⟩
    obtain ⟨g', hinside, hg'⟩ := inside_of_spells hrest hbehind hdetails
    exact ⟨_, htop.trans (top_word hs hinside), denotes_merge hg hg' hjson⟩

/-! ### Writing down what is to be read -/

lemma value_mem_settings_iff (a : Arguments) (flag : ValueFlag) (text : String) :
    .value flag text ∈ a.settings ↔ a.value? flag = some text := by
  cases flag <;> simp [settings, value?]

lemma switch_mem_settings_iff (a : Arguments) :
    (.switch .debug ∈ a.settings ↔ a.debug = true) ∧
      (.switch .json ∈ a.settings ↔ a.command = some (.details true)) := by
  simp [settings]

lemma nodup_settings (a : Arguments) : (a.settings.map Setting.flag).Nodup := by
  obtain ⟨cwd, tagPrefix, debug, command⟩ := a
  cases cwd <;> cases tagPrefix <;> cases debug <;> by_cases h : command = some (.details true) <;>
    simp [settings, Setting.flag, h]

lemma oneSide_settings (h : a.cwd ≠ some "") : OneSide a.settings where
  once := nodup_settings a
  named hmem := h ((value_mem_settings_iff a .cwd "").mp hmem)

lemma denotes_of_perm (hside : OneSide (outer ++ inner))
    (hperm : (outer ++ inner).Perm a.settings) : Denotes a.command outer inner a where
  command := rfl
  value flag text := by
    rw [← value_mem_settings_iff, ← hperm.mem_iff, List.mem_append, or_comm]
    refine or_congr_right (iff_self_and.mpr fun houter other hinner => ?_)
    exact hside.flag_ne houter hinner rfl
  debug := by
    rw [← (switch_mem_settings_iff a).1, ← hperm.mem_iff, List.mem_append, or_comm]

lemma proper_of_perm (hside : OneSide (outer ++ inner)) (hperm : (outer ++ inner).Perm a.settings)
    (hnot : .switch .json ∉ outer) : Proper a.command outer inner where
  before := hside.left
  behind := hside.right
  notBefore := hnot
  json := by
    rw [← (switch_mem_settings_iff a).2, ← hperm.mem_iff, List.mem_append, or_iff_right hnot]

/-- **Command lines denote what they spell.** If all that is to be given is written down, each flag
once, before or behind the command word in any order, then just this is read. And a flag may stand
on both sides of the command word: the value behind it wins. -/
theorem parse_written :
    (∀ (a : Arguments) (outer inner : List Setting) (words : List String), a.cwd ≠ some "" →
      (outer ++ inner).Perm a.settings → .switch .json ∉ outer →
      Writes a.command outer inner words → parse words = .ok a) ∧
    ∀ (command : Command) (outer inner : List Setting) (words : List String),
      Proper (some command) outer inner → Writes (some command) outer inner words →
      ∃ a, parse words = .ok a ∧ Denotes (some command) outer inner a := by
  refine ⟨fun a outer inner words hcwd hperm hnot hwrites => ?_,
    fun command outer inner words => parse_of_writes⟩
  have hside : OneSide (outer ++ inner) := (oneSide_settings hcwd).perm hperm
  obtain ⟨b, hparse, hb⟩ := parse_of_writes (proper_of_perm hside hperm hnot) hwrites
  rw [hparse, hb.unique (denotes_of_perm hside hperm)]

/-- Values that look like commands and flags, and a prefix on both sides of the command word. -/
theorem parse_written_lookalikes :
    parse ["--prefix=", "--cwd", "details", "details", "--json", "--debug"] =
        .ok ⟨some "details", some "", true, some (.details true)⟩ ∧
      ∃ a, parse ["--prefix", "a=b", "--debug", "print-version", "--prefix=--cwd=x", "--debug",
          "--cwd", "-"] = .ok a ∧
        a.tagPrefix = some "--cwd=x" ∧ a.cwd = some "-" ∧ a.debug = true := by
  have hdetails := Writes.led (.details true)
    (.cons (.joined .tagPrefix "") (.cons (.apart .cwd "details" (by decide)) .nil))
    (.cons (.alone .json) (.cons (.alone .debug) .nil))
  have hprint := Writes.led .printVersion
    (.cons (.apart .tagPrefix "a=b" (by decide)) (.cons (.alone .debug) .nil))
    (.cons (.joined .tagPrefix "--cwd=x") (.cons (.alone .debug)
      (.cons (.apart .cwd "-" fun _ => rfl) .nil)))
  obtain ⟨a, hparse, ha⟩ := parse_written.2 _ _ _ _
    ⟨⟨by decide, by decide⟩, ⟨by decide, by decide⟩, by decide, by decide⟩ hprint
  exact ⟨parse_written.1 _ _ _ _ (by decide) (by decide) (by decide) hdetails, a, hparse,
    (ha.value .tagPrefix _).mpr (.inl (by decide)), (ha.value .cwd _).mpr (.inl (by decide)),
    ha.debug.mpr (.inl (by decide))⟩

end

end Arguments

end TagVersion
