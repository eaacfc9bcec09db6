import TagVersion.CommandLine.Run
import TagVersion.Proofs.Json.Grammar

/-!
What is printed as JSON, read by the grammar. The object of the details is laid out a member a line;
whatever its texts hold, it is read as one object with the details in it, and as nothing else.
-/

namespace TagVersion

namespace Json

variable {v : Value} {ms : List (String × Value)} {written : String} {after : List Char}

lemma writes_toString (n : Nat) : Writes (.value (.number n)) (toString n).toList :=
  .number (number?_toString n)

/-- The line of a member with a value that is written already. -/
def line (member : String × String) : String := "  " ++ quoted member.1 ++ ": " ++ member.2

/-- Whether members with written values are those of an object, in its order. -/
def Shows (written : List (String × String)) (ms : List (String × Value)) : Prop :=
  List.Forall₂ (fun w m => w.1 = m.1 ∧ Writes (.value m.2) w.2.toList) written ms

lemma writes_line (key : String) (hv : Writes (.value v) written.toList) (hafter : IsBlank after) :
    Writes (.member (key, v)) ('\n' :: ((line (key, written)).toList ++ after)) := by
  have hbefore : IsBlank ['\n', ' ', ' '] := by decide
  have hspace : IsBlank [' '] := by decide
  have hmember := Writes.member hbefore (by decide : IsBlank []) (spells_escape key.toList)
    (.element hspace hafter hv)
  simpa [line, toList_quoted] using hmember

/-- The lines of some members, with commas between them, are written for the members. -/
lemma writes_lines {members : List (String × String)} (h : Shows members ms) (hne : members ≠ []) :
    Writes (.members ms)
      ('\n' :: ((String.intercalate ",\n" (members.map line)).toList ++ ['\n'])) := by
  induction h with
  | nil => exact absurd rfl hne
  | @cons w m members ms hm hms ih =>
    obtain ⟨key, written⟩ := w
    obtain ⟨key', v⟩ := m
    obtain ⟨rfl, hv⟩ := hm
    cases members with
    | nil =>
      cases hms
      rw [List.map_singleton, String.intercalate_singleton]
      exact .lastMember (writes_line key hv (by decide))
    | cons next members =>
      have hline := writes_line key hv (by decide : IsBlank [])
      have hmembers := Writes.members hline (ih (List.cons_ne_nil _ _))
      rw [List.map_cons, List.map_cons, String.intercalate_cons_cons]
      simpa using hmembers

end Json

namespace Details

open Json (Value IsDocument)

/-- A text that may be missing. -/
def textOrNull : Option String → Value
  | none => .null
  | some text => .string text

/-- The members of the object that the details are printed as. -/
def fields (d : Details) : List (String × Value) :=
  [("version", .string d.version),
   ("lastTag", textOrNull d.lastTag),
   ("commitDistance", .number d.commitDistance),
   ("gitHash", .string d.hash),
   ("gitHashFull", .string d.fullHash),
   ("branchName", .string d.branch),
   ("isCleanTag", .boolean d.isCleanTag)]

variable {d d' : Details}

lemma textOrNull_inj {tag tag' : Option String} :
    textOrNull tag = textOrNull tag' ↔ tag = tag' := by
  cases tag <;> cases tag' <;> simp [textOrNull]

lemma fields_inj : d.fields = d'.fields ↔ d = d' := by
  cases d
  cases d'
  simp [fields, textOrNull_inj]

/-- Every member is written as the value of its field. -/
lemma shows_members (d : Details) : Json.Shows d.members d.fields := by
  have htag : Json.Writes (.value (textOrNull d.lastTag))
      ((d.lastTag.map Json.quoted).getD "null").toList := by
    cases d.lastTag with
    | none => exact .null
    | some tag => exact Json.writes_quoted tag
  have hclean : Json.Writes (.value (.boolean d.isCleanTag))
      (if d.isCleanTag then "true" else "false").toList := by
    cases d.isCleanTag with
    | true => exact .true
    | false => exact .false
  exact .cons ⟨rfl, Json.writes_quoted _⟩ <| .cons ⟨rfl, htag⟩ <|
    .cons ⟨rfl, Json.writes_toString _⟩ <| .cons ⟨rfl, Json.writes_quoted _⟩ <|
    .cons ⟨rfl, Json.writes_quoted _⟩ <| .cons ⟨rfl, Json.writes_quoted _⟩ <|
    .cons ⟨rfl, hclean⟩ .nil

lemma json_eq (d : Details) :
    d.json = "\x7b\n" ++ String.intercalate ",\n" (d.members.map Json.line) ++ "\n\x7d" := rfl

/-- White space may follow the object. -/
lemma isDocument_json_append_iff {after : String} (hafter : Json.IsBlank after.toList) (v : Value) :
    IsDocument (d.json ++ after) v ↔ v = .object d.fields := by
  have hobject := Json.Writes.object
    (Json.writes_lines d.shows_members (List.cons_ne_nil _ _))
  have hwrites := Json.Writes.element (by decide : Json.IsBlank []) hafter hobject
  have hdocument : IsDocument (d.json ++ after) (.object d.fields) := by
    simpa [IsDocument, json_eq] using hwrites
  constructor
  · exact fun h => h.unique hdocument
  · rintro rfl
    exact hdocument

lemma isDocument_json_iff (v : Value) : IsDocument d.json v ↔ v = .object d.fields := by
  have hread : IsDocument (d.json ++ "") v ↔ v = .object d.fields :=
    isDocument_json_append_iff (by decide) v
  rwa [String.append_empty] at hread

/-- **What is printed as JSON loses nothing.** It is read as one object, whose members are the
fields of the details, each under its key; so no other details are printed in the same way. -/
theorem json_recovers (d : Details) :
    let printed := CommandLine.render (.details true) d
    (∀ v, IsDocument d.json v ↔ v = .object d.fields) ∧
    (∀ v, IsDocument printed v ↔ v = .object d.fields) ∧
    (∀ d' : Details, d'.json = d.json ↔ d' = d) ∧
    ∀ d' : Details, CommandLine.render (.details true) d' = printed ↔ d' = d := by
  intro printed
  have hjson : ∀ d' : Details, d'.json = d.json ↔ d' = d := by
    intro d'
    constructor
    · intro hsame
      have hread : IsDocument d.json (.object d'.fields) := by
        rw [← hsame]
        exact isDocument_json_iff _ |>.mpr rfl
      exact fields_inj.mp (Value.object.inj ((isDocument_json_iff _).mp hread))
    · exact congrArg json
  refine ⟨isDocument_json_iff, isDocument_json_append_iff (by decide), hjson, fun d' => ?_⟩
  rw [← hjson d']
  exact String.append_left_inj "\n"

end Details

end TagVersion
