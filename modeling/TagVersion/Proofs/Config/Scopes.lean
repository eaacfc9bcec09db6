import Mathlib.Tactic.SplitIfs
import TagVersion.Config.Schema
import TagVersion.Proofs.Toml.Strings

/-!
The two kinds of configuration files. A file of either kind is read just if its statements, in some
order, give the settings, and nothing else; so a repository's file says the same to both kinds, and
both pass the same verdict on it.
-/

namespace TagVersion.Config

open Toml Toml.Document

/-- The settings that a global file gives. -/
def Global.settings (g : Global) : List (String × String) :=
  (g.tagPrefix.map fun text => ("prefix", text)).toList ++
    (g.log.map fun text => ("log", text)).toList

variable {known : List String} {members : Members} {settings : List (String × String)}
  {text : String}

/-! ### Reading -/

lemma strings?_cons_eq_some_iff {key : String} {value : Value} :
    strings? known ((key, value) :: members) = some settings ↔
      ∃ text rest, value = .string text ∧ key ∈ known ∧ strings? known members = some rest ∧
        settings = (key, text) :: rest := by
  unfold strings?
  rw [List.mapM_cons]
  cases value with
  | string text =>
    by_cases hknown : key ∈ known <;>
      simp [hknown, Option.bind_eq_some_iff, @eq_comm _ settings]
  | _ => simp

/-- A table is read as settings just if it holds their texts under keys that are known. -/
lemma strings?_eq_some_iff : strings? known members = some settings ↔
    members = Members.ofStrings settings ∧ ∀ setting ∈ settings, setting.1 ∈ known := by
  induction members generalizing settings with
  | nil =>
    cases settings <;> simp [strings?, Members.ofStrings]
  | cons member members ih =>
    obtain ⟨key, value⟩ := member
    rw [strings?_cons_eq_some_iff]
    constructor
    · rintro ⟨text, rest, rfl, hkey, hrest, rfl⟩
      obtain ⟨rfl, hknown⟩ := ih.mp hrest
      exact ⟨rfl, List.forall_mem_cons.mpr ⟨hkey, hknown⟩⟩
    · rintro ⟨hmembers, hknown⟩
      cases settings with
      | nil => cases hmembers
      | cons setting rest =>
        obtain ⟨⟨⟩, hrest⟩ := List.cons.inj hmembers
        obtain ⟨hkey, hothers⟩ := List.forall_mem_cons.mp hknown
        exact ⟨setting.2, rest, rfl, hkey, ih.mpr ⟨hrest, hothers⟩, rfl⟩

/-- What is read of a document under some keys: its statements give it, each key once. -/
lemma bind_strings?_eq_some_iff {α : Type} {make : List (String × String) → α} {a : α} :
    ((read? text).bind fun members => do return make (← strings? known members)) = some a ↔
      ∃ settings, (settings.map Prod.fst).Nodup ∧ (∀ setting ∈ settings, setting.1 ∈ known) ∧
        statementsOf? text = some (settings.map Statement.give) ∧ make settings = a := by
  rw [Option.bind_eq_some_iff]
  constructor
  · rintro ⟨_, hread, hmembers⟩
    obtain ⟨settings, hsettings, hmake⟩ := Option.bind_eq_some_iff.mp hmembers
    obtain ⟨rfl, hknown⟩ := strings?_eq_some_iff.mp hsettings
    obtain ⟨hnodup, hstatements⟩ := read?_eq_ofStrings_iff.mp hread
    exact ⟨settings, hnodup, hknown, hstatements, Option.some.inj hmake⟩
  · rintro ⟨settings, hnodup, hknown, hstatements, rfl⟩
    have hsettings : strings? known (Members.ofStrings settings) = some settings :=
      strings?_eq_some_iff.mpr ⟨rfl, hknown⟩
    exact ⟨_, read?_eq_ofStrings_iff.mpr ⟨hnodup, hstatements⟩,
      Option.bind_eq_some_iff.mpr ⟨settings, hsettings, rfl⟩⟩

lemma lookup_eq_none_of_known {key : String} (hknown : ∀ setting ∈ settings, setting.1 ∈ known)
    (hkey : key ∉ known) : settings.lookup key = none := by
  rw [lookup_eq_none_iff_notMem, List.mem_map]
  rintro ⟨setting, hmem, rfl⟩
  exact hkey (hknown setting hmem)

/-- A repository's file is a global one that gives no log directive. -/
lemma repo_ofText?_eq_some_iff {r : Repo} :
    Repo.ofText? text = some r ↔ Global.ofText? text = some ⟨r.tagPrefix, none⟩ := by
  refine bind_strings?_eq_some_iff.trans (Iff.trans ?_ bind_strings?_eq_some_iff.symm)
  refine exists_congr fun settings => and_congr_right fun hnodup => ?_
  constructor
  · rintro ⟨hknown, hstatements, rfl⟩
    have hlog : settings.lookup "log" = none := lookup_eq_none_of_known hknown (by decide)
    exact ⟨fun setting hmem => List.mem_cons.mpr (.inl (List.mem_singleton.mp (hknown _ hmem))),
      hstatements, by rw [hlog]⟩
  · rintro ⟨hknown, hstatements, hmake⟩
    obtain ⟨hstart, hlog⟩ := Global.mk.inj hmake
    refine ⟨fun setting hmem => ?_, hstatements, congrArg Repo.mk hstart⟩
    rcases List.mem_pair.mp (hknown setting hmem) with hkey | hkey
    · exact List.mem_singleton.mpr hkey
    · refine absurd ?_ (lookup_eq_none_iff_notMem.mp hlog)
      exact List.mem_map.mpr ⟨setting, hmem, hkey⟩

lemma nodup_settings (g : Global) : (g.settings.map Prod.fst).Nodup := by
  obtain ⟨_ | _, _ | _⟩ := g <;> simp [Global.settings]

lemma lookup_settings (g : Global) (key : String) : g.settings.lookup key =
    if key = "prefix" then g.tagPrefix else if key = "log" then g.log else none := by
  obtain ⟨_ | _, _ | _⟩ := g <;> grind [Global.settings]

/-- A global file is read just if its statements give the settings, in either order. -/
lemma global_ofText?_eq_some_iff {g : Global} : Global.ofText? text = some g ↔
    ∃ settings : List (String × String), settings.Perm g.settings ∧
      statementsOf? text = some (settings.map Statement.give) := by
  refine bind_strings?_eq_some_iff.trans ?_
  constructor
  · rintro ⟨settings, hnodup, hknown, hstatements, rfl⟩
    refine ⟨settings, ?_, hstatements⟩
    refine (perm_iff_lookup_eq hnodup (nodup_settings _)).mpr fun key => ?_
    rw [lookup_settings]
    split_ifs with hstart hlog
    · rw [hstart]
    · rw [hlog]
    · exact lookup_eq_none_of_known hknown (by simp [hstart, hlog])
  · rintro ⟨settings, hperm, hstatements⟩
    have hnodup := (hperm.map Prod.fst).nodup_iff.mpr (nodup_settings g)
    have hlookup := (perm_iff_lookup_eq hnodup (nodup_settings g)).mp hperm
    refine ⟨settings, hnodup, fun setting hmem => ?_, hstatements, ?_⟩
    · have hfound := (lookup_eq_some_iff_mem hnodup).mpr hmem
      rw [hlookup, lookup_settings] at hfound
      grind
    · rw [hlookup, hlookup, lookup_settings, lookup_settings]
      rfl

lemma mem_settings_iff {g : Global} {key value : String} : (key, value) ∈ g.settings ↔
    key = "prefix" ∧ g.tagPrefix = some value ∨ key = "log" ∧ g.log = some value := by
  rw [← lookup_eq_some_iff_mem (nodup_settings g), lookup_settings]
  grind

/-- Every statement of a file that is read gives one of the settings. -/
lemma of_mem_statements {g : Global} {statements : List Statement} {statement : Statement}
    (h : Global.ofText? text = some g) (hstatements : statementsOf? text = some statements)
    (hmem : statement ∈ statements) :
    ∃ setting ∈ g.settings, statement = .give setting := by
  obtain ⟨settings, hperm, hgive⟩ := global_ofText?_eq_some_iff.mp h
  obtain rfl := Option.some.inj (hstatements.symm.trans hgive)
  obtain ⟨setting, hsetting, rfl⟩ := List.mem_map.mp hmem
  exact ⟨setting, hperm.mem_iff.mp hsetting, rfl⟩

/-- Every member of a table that is read holds one of the settings. -/
lemma of_mem_members {g : Global} {member : String × Value} (h : Global.ofText? text = some g)
    (hread : read? text = some members) (hmem : member ∈ members) :
    ∃ setting ∈ g.settings, member = (setting.1, .string setting.2) := by
  obtain ⟨settings, hperm, hgive⟩ := global_ofText?_eq_some_iff.mp h
  have hnodup := (hperm.map Prod.fst).nodup_iff.mpr (nodup_settings g)
  obtain rfl := Option.some.inj
    (hread.symm.trans (read?_eq_ofStrings_iff.mpr ⟨hnodup, hgive⟩))
  obtain ⟨setting, hsetting, rfl⟩ := List.mem_map.mp hmem
  exact ⟨setting, hperm.mem_iff.mp hsetting, rfl⟩

/-- Without a log directive the prefix is all there is to check. -/
lemma validate_of_log_eq_none (tagPrefix : Option String) :
    (⟨tagPrefix, none⟩ : Global).validate = (⟨tagPrefix⟩ : Repo).validate := by
  show (validatePrefix tagPrefix >>= fun _ => .ok ()) = validatePrefix tagPrefix
  cases validatePrefix tagPrefix <;> rfl

/-- **The two kinds of files agree on what they share.** A text is read as a repository's file just
if it is read as a global one with the same prefix and no log directive. Any statement but one that
gives a string to a known key spoils it, be it another key, a key with dots or the header of a
table; and so does any member of the table that is read but a string under a known key. Both kinds
pass the same verdict, and tell the same fault, on a file that both read. -/
theorem ofText?_scopes (text : String) :
    (∀ tagPrefix,
      Repo.ofText? text = some ⟨tagPrefix⟩ ↔ Global.ofText? text = some ⟨tagPrefix, none⟩) ∧
    (∀ tagPrefix log, Global.ofText? text = some ⟨tagPrefix, log⟩ ↔
      ∃ settings : List (String × String),
        settings.Perm ((tagPrefix.map ("prefix", ·)).toList ++ (log.map ("log", ·)).toList) ∧
        statementsOf? text =
          some (settings.map fun (key, value) => .assign [key] (.string value))) ∧
    (∀ statements, statementsOf? text = some statements → ∀ statement ∈ statements,
      (∀ value, statement ≠ .assign ["prefix"] (.string value)) →
      Repo.ofText? text = none ∧
      ((∀ value, statement ≠ .assign ["log"] (.string value)) → Global.ofText? text = none)) ∧
    (∀ members, read? text = some members → ∀ key value, (key, value) ∈ members →
      (key ≠ "prefix" ∨ (∀ written, value ≠ .string written) → Repo.ofText? text = none) ∧
      (key ∉ ["prefix", "log"] ∨ (∀ written, value ≠ .string written) →
        Global.ofText? text = none)) ∧
    ∀ r, Repo.ofText? text = some r →
      ∃ g, Global.ofText? text = some g ∧ g.validate = r.validate := by
  refine ⟨fun _ => repo_ofText?_eq_some_iff, fun _ _ => global_ofText?_eq_some_iff, ?_, ?_, ?_⟩
  · intro statements hstatements statement hmem hstart
    have hgives : ∀ g, Global.ofText? text = some g →
        ∃ value, g.log = some value ∧ statement = .give ("log", value) := by
      intro g hg
      obtain ⟨⟨key, value⟩, hsetting, rfl⟩ := of_mem_statements hg hstatements hmem
      rcases mem_settings_iff.mp hsetting with ⟨rfl, -⟩ | ⟨rfl, hlog⟩
      · exact absurd rfl (hstart value)
      · exact ⟨value, hlog, rfl⟩
    refine ⟨Option.eq_none_iff_forall_ne_some.mpr fun r hr => ?_,
      fun hlog => Option.eq_none_iff_forall_ne_some.mpr fun g hg => ?_⟩
    · obtain ⟨value, hlog, -⟩ := hgives _ (repo_ofText?_eq_some_iff.mp hr)
      cases hlog
    · obtain ⟨value, -, rfl⟩ := hgives g hg
      exact hlog value rfl
  · intro members hread key value hmem
    have hholds : ∀ g, Global.ofText? text = some g →
        ∃ written, value = .string written ∧ (key, written) ∈ g.settings := by
      intro g hg
      obtain ⟨⟨_, written⟩, hsetting, ⟨⟩⟩ := of_mem_members hg hread hmem
      exact ⟨written, rfl, hsetting⟩
    refine ⟨fun hbad => Option.eq_none_iff_forall_ne_some.mpr fun r hr => ?_,
      fun hbad => Option.eq_none_iff_forall_ne_some.mpr fun g hg => ?_⟩
    · obtain ⟨written, rfl, hsetting⟩ := hholds _ (repo_ofText?_eq_some_iff.mp hr)
      rcases mem_settings_iff.mp hsetting with ⟨rfl, -⟩ | ⟨-, hlog⟩
      · simp at hbad
      · cases hlog
    · obtain ⟨written, rfl, hsetting⟩ := hholds g hg
      rcases mem_settings_iff.mp hsetting with ⟨rfl, -⟩ | ⟨rfl, -⟩ <;> simp at hbad
  · exact fun r hr => ⟨_, repo_ofText?_eq_some_iff.mp hr, validate_of_log_eq_none r.tagPrefix⟩

/-- A file whose prefix is none, for either kind; and one whose prefix is a table. -/
theorem ofText?_scopes_dotted :
    let text := "prefix = 'v'"
    let dotted := "prefix.a = 'b'"
    Repo.ofText? text = some ⟨some "v"⟩ ∧
      (∃ g, Global.ofText? text = some g ∧ g.validate = .error (.tagPrefix "v")) ∧
      statementsOf? dotted = some [.assign ["prefix", "a"] (.string "b")] ∧
      read? dotted = some [("prefix", .table .dotted [("a", .string "b")])] ∧
      Repo.ofText? dotted = none ∧ Global.ofText? dotted = none := by
  intro text dotted
  have hrepo : Repo.ofText? text = some ⟨some "v"⟩ := by decide +kernel
  have hstatements : statementsOf? dotted = some [.assign ["prefix", "a"] (.string "b")] := by
    have hstrings : (statementsOf? dotted).map (List.map Statement.string?) =
        some [some (["prefix", "a"], "b")] := by decide +kernel
    obtain ⟨statements, hfound, hstrings⟩ := Option.map_eq_some_iff.mp hstrings
    obtain ⟨statement, rfl, hstring⟩ := List.map_eq_singleton_iff.mp hstrings
    rw [hfound, Statement.string?_eq_some_iff.mp hstring]
  have hread : read? dotted = some [("prefix", .table .dotted [("a", .string "b")])] := by
    rw [read?_eq, hstatements]
    rfl
  obtain ⟨-, -, -, -, hverdict⟩ := ofText?_scopes text
  obtain ⟨-, -, hstatement, hmember, -⟩ := ofText?_scopes dotted
  obtain ⟨g, hg, hvalidate⟩ := hverdict _ hrepo
  refine ⟨hrepo, ⟨g, hg, hvalidate.trans (by rfl)⟩, hstatements, hread, ?_, ?_⟩
  · exact (hstatement _ hstatements _ (.head _) nofun).1
  · exact (hmember _ hread _ _ (.head _)).2 (.inr nofun)

end TagVersion.Config
