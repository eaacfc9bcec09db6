import Mathlib.Data.List.TakeWhile
import Mathlib.Tactic.Lemma
import TagVersion.Json.Quoted
import TagVersion.Proofs.Lookup
import TagVersion.Proofs.Text.Hex

/-!
What stands between the quotes of a string literal. A character may be written in several ways; the
ways are told without the reader, and the reader reads just what can be so written, in each of them.
-/

namespace TagVersion.Json

/-- The letters that stand for a character behind a backslash. -/
def letters : List (Char × Char) :=
  [('"', '"'), ('\\', '\\'), ('/', '/'), ('b', '\x08'), ('f', '\x0c'), ('n', '\n'), ('r', '\r'),
    ('t', '\t')]

/-- What may be written for a character between quotes: the character itself, its short escape, four
hexadecimal digits, or the digits of the two halves of a surrogate pair. -/
inductive Stands (c : Char) : List Char → Prop where
  | plain : 32 ≤ c.toNat → c ∉ ['"', '\\'] → Stands c [c]
  | short {letter : Char} : (letter, c) ∈ letters → Stands c ['\\', letter]
  | unit {i j k l : Char} : Hex.ofDigits? [i, j, k, l] = some c.toNat →
      Stands c ['\\', 'u', i, j, k, l]
  | pair {i j k l i' j' k' l' : Char} {high low : Nat} : Hex.ofDigits? [i, j, k, l] = some high →
      Hex.ofDigits? [i', j', k', l'] = some low → 0xD800 ≤ high → high ≤ 0xDBFF → 0xDC00 ≤ low →
      low ≤ 0xDFFF → c.toNat = 0x10000 + (high - 0xD800) * 0x400 + (low - 0xDC00) →
      Stands c ['\\', 'u', i, j, k, l, '\\', 'u', i', j', k', l']

/-- What may be written for a text between quotes. -/
inductive Spells : List Char → List Char → Prop where
  | nil : Spells [] []
  | cons {c : Char} {written text rest : List Char} : Stands c written → Spells text rest →
      Spells (c :: text) (written ++ rest)

/-- White space of JSON. -/
def IsBlank (cs : List Char) : Prop := ∀ c ∈ cs, c ∈ [' ', '\t', '\n', '\r']

instance (cs : List Char) : Decidable (IsBlank cs) := List.decidableBAll _ cs

variable {c : Char} {cs written text rest left before : List Char}

/-! ### Characters by their numbers -/

lemma scalar?_eq_some_iff {n : Nat} : scalar? n = some c ↔ n = c.toNat := by
  unfold scalar?
  by_cases hvalid : n.isValidChar
  · rw [dif_pos hvalid, Option.some_inj, ← Char.toNat_inj]
    exact Iff.rfl
  · rw [dif_neg hvalid]
    refine iff_of_false nofun ?_
    rintro rfl
    exact hvalid c.valid

lemma not_surrogate (c : Char) : ¬ (0xD800 ≤ c.toNat ∧ c.toNat ≤ 0xDFFF) := by
  have hvalid : c.toNat.isValidChar := c.valid
  unfold Nat.isValidChar at hvalid
  omega

lemma paired?_eq_some_iff {high low : Nat} : paired? high low = some c ↔
    (0xDC00 ≤ low ∧ low ≤ 0xDFFF) ∧
      c.toNat = 0x10000 + (high - 0xD800) * 0x400 + (low - 0xDC00) := by
  unfold paired?
  split
  · next hlow => rw [scalar?_eq_some_iff, and_iff_right hlow, eq_comm]
  · next hlow => simp [hlow]

lemma mem_letters_iff {letter : Char} : (letter, c) ∈ letters ↔
    (if letter = '/' then some '/' else shortEscapes.lookup letter) = some c := by
  have hnodup : (shortEscapes.map Prod.fst).Nodup := by decide
  have hslash : ('/', c) ∉ shortEscapes := by simp [shortEscapes]
  split
  · next h =>
    subst h
    simp [letters, eq_comm]
  · next h =>
    rw [lookup_eq_some_iff_mem hnodup]
    simp [letters, shortEscapes, h]
    grind

/-! ### Reading what is written -/

/-- A character is read in whichever way it is written, if what follows is read. -/
lemma unquote_append (h : Stands c written) (hrest : unquote rest = some (text, left)) :
    unquote (written ++ rest) = some (c :: text, left) := by
  cases h with
  | plain hspace hplain =>
    simp only [List.mem_cons, List.not_mem_nil, or_false, not_or] at hplain
    have hctrl : ¬ c.toNat < 32 := Nat.not_lt.mpr hspace
    simp [unquote, hplain, hctrl, hrest]
  | @short letter hmem =>
    have hne : letter ≠ 'u' := by
      rintro rfl
      simp [letters] at hmem
    have hletter := mem_letters_iff.mp hmem
    split at hletter
    · next hslash =>
      obtain rfl := Option.some.inj hletter
      simp [unquote, hslash, hrest]
    · next hslash => simp [unquote, hne, hslash, hletter, hrest]
  | unit hdigits =>
    have hlow : ¬ (0xD800 ≤ c.toNat ∧ c.toNat ≤ 0xDBFF) := fun h => not_surrogate c (by omega)
    have hscalar : scalar? c.toNat = some c := scalar?_eq_some_iff.mpr rfl
    simp [unquote, hdigits, hlow, hscalar, hrest]
  | pair hhigh hlow h1 h2 h3 h4 hc =>
    have hpaired := paired?_eq_some_iff.mpr ⟨⟨h3, h4⟩, hc⟩
    simp [unquote, hhigh, hlow, h1, h2, hpaired, hrest]

lemma Spells.unquote_append (h : Spells text written) :
    unquote (written ++ '"' :: rest) = some (text, rest) := by
  induction h with
  | nil => simp [unquote]
  | cons hstands _ ih =>
    rw [List.append_assoc]
    exact Json.unquote_append hstands ih

/-- A character goes in front of what was read behind it. -/
lemma Stands.spells (hstands : Stands c written)
    (ih : ∀ {text left}, unquote rest = some (text, left) →
      ∃ written, Spells text written ∧ rest = written ++ '"' :: left)
    (h : (unquote rest).bind (fun read => some (c :: read.1, read.2)) = some (text, left)) :
    ∃ more, Spells text more ∧ written ++ rest = more ++ '"' :: left := by
  obtain ⟨⟨text', left'⟩, hrest, heq⟩ := Option.bind_eq_some_iff.mp h
  obtain ⟨rfl, rfl⟩ := Prod.mk.inj (Option.some.inj heq)
  obtain ⟨more, hspells, rfl⟩ := ih hrest
  exact ⟨written ++ more, .cons hstands hspells, by rw [List.append_assoc]⟩

/-- What is read has been written. -/
lemma spells_of_unquote (h : unquote cs = some (text, left)) :
    ∃ written, Spells text written ∧ cs = written ++ '"' :: left := by
  fun_induction unquote cs generalizing text left with
  | case1 rest =>
    obtain ⟨rfl, rfl⟩ := Prod.mk.inj (Option.some.inj h)
    exact ⟨[], .nil, rfl⟩
  | case2 i j k l rest ihpair ihunit =>
    obtain ⟨unit, hunit, h⟩ := Option.bind_eq_some_iff.mp h
    split at h
    · next hhigh =>
      split at h
      · next i' j' k' l' rest =>
        obtain ⟨low, hlow, h⟩ := Option.bind_eq_some_iff.mp h
        obtain ⟨c, hpaired, h⟩ := Option.bind_eq_some_iff.mp h
        obtain ⟨⟨h3, h4⟩, hc⟩ := paired?_eq_some_iff.mp hpaired
        exact (Stands.pair hunit hlow hhigh.1 hhigh.2 h3 h4 hc).spells ihpair h
      · cases h
    · obtain ⟨c, hscalar, h⟩ := Option.bind_eq_some_iff.mp h
      rw [scalar?_eq_some_iff.mp hscalar] at hunit
      exact (Stands.unit hunit).spells ihunit h
  | case3 rest jump hu =>
    rename_i ih
    exact (Stands.short (mem_letters_iff.mpr rfl)).spells ih h
  | case4 letter rest hu jump hslash =>
    rename_i ih
    obtain ⟨c, hletter, h⟩ := Option.bind_eq_some_iff.mp h
    have hmem : (letter, c) ∈ letters := mem_letters_iff.mpr (by rw [if_neg hslash, hletter])
    exact (Stands.short hmem).spells ih h
  | case5 => cases h
  | case6 c rest hquote hunit hletter jump hspace =>
    rename_i ih
    -- a backslash at the very end is read as a character, but then no quote follows it
    have hplain : c ∉ ['"', '\\'] := by
      rw [List.mem_pair, not_or]
      refine ⟨hquote, ?_⟩
      rintro rfl
      cases rest with
      | nil => cases h
      | cons letter rest => exact hletter letter rest rfl rfl
    exact (Stands.plain (Nat.not_lt.mp hspace) hplain).spells ih h
  | case7 => cases h

/-! ### Writing -/

lemma stands_escape (c : Char) : Stands c (escape c) := by
  unfold escape
  split
  · next letter c' hfound =>
    obtain rfl : c' = c := by simpa using List.find?_some hfound
    have hmem : (letter, c') ∈ letters :=
      (by decide : shortEscapes ⊆ letters) (List.mem_of_find?_eq_some hfound)
    exact .short hmem
  · next hnone =>
    rw [List.find?_eq_none] at hnone
    split
    · next hctrl =>
      have hdigits : Hex.ofDigits? (Hex.numeral 4 c.toNat) = some c.toNat :=
        Hex.ofDigits?_numeral (by omega)
      exact .unit hdigits
    · next hctrl =>
      refine .plain (Nat.not_lt.mp hctrl) fun hmem => ?_
      rcases List.mem_pair.mp hmem with rfl | rfl
      · exact hnone ('"', '"') (by decide) (by decide)
      · exact hnone ('\\', '\\') (by decide) (by decide)

lemma spells_escape (text : List Char) : Spells text (text.flatMap escape) := by
  induction text with
  | nil => exact .nil
  | cons c text ih => exact .cons (stands_escape c) ih

/-! ### White space -/

lemma isSpace_iff : isSpace c = true ↔ c ∈ [' ', '\t', '\n', '\r'] := by
  simp [isSpace, or_assoc]

lemma all_isSpace_iff : cs.all isSpace = true ↔ IsBlank cs := by
  simp only [List.all_eq_true, isSpace_iff, IsBlank]

lemma dropWhile_isSpace_append (h : IsBlank before) :
    (before ++ rest).dropWhile isSpace = rest.dropWhile isSpace :=
  List.dropWhile_append_of_pos fun c hc => isSpace_iff.mpr (h c hc)

lemma exists_isBlank_append (cs : List Char) :
    ∃ before, IsBlank before ∧ cs = before ++ cs.dropWhile isSpace :=
  ⟨cs.takeWhile isSpace, fun _ hc => isSpace_iff.mp (List.mem_takeWhile_imp hc),
    List.takeWhile_append_dropWhile.symm⟩

/-- A document is read as a text just if it is a literal of it, with white space around it. -/
lemma string?_eq_some_iff {document text : String} : string? document = some text ↔
    ∃ before written after, IsBlank before ∧ IsBlank after ∧ Spells text.toList written ∧
      document.toList = before ++ '"' :: (written ++ '"' :: after) := by
  constructor
  · intro h
    obtain ⟨before, hbefore, hdocument⟩ := exists_isBlank_append document.toList
    unfold string? at h
    split at h
    · next rest hrest =>
      split at h
      · next cs after hread =>
        split at h
        · next hafter =>
          obtain rfl := Option.some.inj h
          obtain ⟨written, hspells, rfl⟩ := spells_of_unquote hread
          refine ⟨before, written, after, hbefore, all_isSpace_iff.mp hafter, ?_, ?_⟩
          · rwa [String.toList_ofList]
          · rw [hdocument, hrest]
        · cases h
      · cases h
    · cases h
  · rintro ⟨before, written, after, hbefore, hafter, hspells, hdocument⟩
    have hquote : ('"' :: (written ++ '"' :: after)).dropWhile isSpace =
        '"' :: (written ++ '"' :: after) := rfl
    unfold string?
    rw [hdocument, dropWhile_isSpace_append hbefore, hquote]
    simp only [hspells.unquote_append, all_isSpace_iff.mpr hafter, if_true, String.ofList_toList]

end TagVersion.Json
