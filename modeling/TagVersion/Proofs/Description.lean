import Mathlib.Data.List.TakeDrop
import Mathlib.Data.List.TakeWhile
import Mathlib.Tactic.Lemma
import TagVersion.Proofs.Text.Decimal
import TagVersion.VersionError

/-!
Written descriptions. A text can be split up into a tag, digits and a hash in one way at most: the
parts come off at the end, where neither the hash nor the digits hold a dash. `parse_grammar` says
that a text is read as a description just if it can be split up, and which of these texts are
written again from what was read.
-/

namespace TagVersion.Description

variable {text tag digits hash : String} {parts : Parts}

/-! ### Splitting up -/

/-- The text is put together as `TAG-N-gHASH`, of one decimal digit or more and three hexadecimal
digits or more. -/
structure Splits (text tag digits hash : String) : Prop where
  eq : text = tag ++ "-" ++ digits ++ "-g" ++ hash
  ne_empty : digits ≠ ""
  digits : ∀ c ∈ digits.toList, c.isDigit = true
  length : 3 ≤ hash.toList.length
  hash : ∀ c ∈ hash.toList, Hex.isDigit c = true

lemma span_append {p : Char → Bool} {front rest : List Char} {c : Char}
    (hfront : ∀ a ∈ front, p a = true) (hc : p c = false) :
    (front ++ c :: rest).span p = (front, c :: rest) := by
  rw [List.span_eq_takeWhile_dropWhile, List.takeWhile_append_of_pos hfront,
    List.dropWhile_append_of_pos hfront]
  simp [hc]

lemma of_span_eq {p : Char → Bool} {cs front rest : List Char} (h : cs.span p = (front, rest)) :
    cs = front ++ rest ∧ ∀ a ∈ front, p a = true := by
  rw [List.span_eq_takeWhile_dropWhile, Prod.mk.injEq] at h
  obtain ⟨rfl, rfl⟩ := h
  exact ⟨List.takeWhile_append_dropWhile.symm, fun _ => List.mem_takeWhile_imp⟩

lemma Splits.span_hash (h : Splits text tag digits hash) : text.toList.reverse.span Hex.isDigit =
    (hash.toList.reverse,
      'g' :: '-' :: (digits.toList.reverse ++ '-' :: tag.toList.reverse)) := by
  have hrev : text.toList.reverse = hash.toList.reverse ++
      'g' :: '-' :: (digits.toList.reverse ++ '-' :: tag.toList.reverse) := by
    rw [h.eq]
    simp
  rw [hrev]
  exact span_append (fun c hc => h.hash c (List.mem_reverse.mp hc)) (by decide)

lemma Splits.span_digits (h : Splits text tag digits hash) (rest : List Char) :
    (digits.toList.reverse ++ '-' :: rest).span Char.isDigit =
      (digits.toList.reverse, '-' :: rest) :=
  span_append (fun c hc => h.digits c (List.mem_reverse.mp hc)) (by decide)

/-- There is one way at most to split up a text. -/
lemma Splits.unique {tag' digits' hash' : String} (h : Splits text tag digits hash)
    (h' : Splits text tag' digits' hash') : tag = tag' ∧ digits = digits' ∧ hash = hash' := by
  have hends := h.span_hash.symm.trans h'.span_hash
  simp only [Prod.mk.injEq, List.cons.injEq, true_and, List.reverse_inj, String.toList_inj] at hends
  obtain ⟨hhash, hrest⟩ := hends
  have hmiddle := congrArg (List.span Char.isDigit) hrest
  rw [h.span_digits, h'.span_digits] at hmiddle
  simp only [Prod.mk.injEq, List.cons.injEq, true_and, List.reverse_inj, String.toList_inj]
    at hmiddle
  exact ⟨hmiddle.2, hmiddle.1, hhash⟩

/-- The parts are found where they were put. -/
lemma Splits.split? (h : Splits text tag digits hash)
    (hlt : Decimal.value digits.toList < distanceBound) (hfeed : '\n' ∉ tag.toList) :
    split? text = some ⟨tag, Decimal.value digits.toList, hash⟩ := by
  have hne : digits.toList ≠ [] := by simpa using h.ne_empty
  unfold Description.split? splitChars?
  rw [h.span_hash]
  simp only [h.span_digits]
  rw [if_pos]
  · simp
  · simp [h.length, hne, hlt, hfeed]

/-- What is found was there. -/
lemma splits_of_split? (h : split? text = some parts) :
    ∃ digits, Splits text parts.tag digits parts.hash ∧
      Decimal.value digits.toList = parts.distance ∧ parts.distance < distanceBound ∧
      '\n' ∉ parts.tag.toList := by
  unfold split? splitChars? at h
  cases hends : text.toList.reverse.span Hex.isDigit with | mk hash rest
  rw [hends] at h
  dsimp only at h
  split at h
  · next rest =>
    cases hmiddle : rest.span Char.isDigit with | mk digits rest
    rw [hmiddle] at h
    dsimp only at h
    split at h
    · next tag =>
      split at h
      · next hcond =>
        obtain ⟨htext, hhash⟩ := of_span_eq hends
        obtain ⟨rfl, hdigits⟩ := of_span_eq hmiddle
        obtain rfl := Option.some.inj h
        simp only [Bool.and_eq_true, decide_eq_true_eq, Bool.not_eq_true',
          List.isEmpty_eq_false_iff, List.contains_eq_mem, decide_eq_false_iff_not] at hcond
        obtain ⟨⟨⟨hlen, hne⟩, hlt⟩, hfeed⟩ := hcond
        have heq : text = String.ofList tag.reverse ++ "-" ++ String.ofList digits.reverse ++
            "-g" ++ String.ofList hash.reverse := by
          rw [← String.toList_inj, ← List.reverse_inj, htext]
          simp
        exact ⟨String.ofList digits.reverse, ⟨heq, by simpa using hne, by simpa using hdigits,
          by simpa using hlen, by simpa using hhash⟩, by simp, hlt, by simpa using hfeed⟩
      · simp at h
    · simp at h
  · simp at h

/-! ### Reading -/

/-- The text is split up into these parts, its digits write the distance, which has thirty-two
bits, and there is no line feed in the tag. -/
structure Writes (text digits : String) (parts : Parts) : Prop where
  splits : Splits text parts.tag digits parts.hash
  value : Nat.ofDigitChars 10 digits.toList 0 = parts.distance
  bound : parts.distance < 2 ^ 32
  feed : '\n' ∉ parts.tag.toList

lemma parse_eq_ok_iff : parse text = .ok parts ↔ ∃ digits, Writes text digits parts := by
  have hsome : parse text = .ok parts ↔ split? text = some parts := by
    unfold parse
    cases split? text <;> simp
  rw [hsome]
  constructor
  · intro h
    obtain ⟨digits, hsplits, hvalue, hlt, hfeed⟩ := splits_of_split? h
    exact ⟨digits, hsplits, (Decimal.value_eq _).symm.trans hvalue, hlt, hfeed⟩
  · rintro ⟨digits, hsplits, hvalue, hlt, hfeed⟩
    rw [← Decimal.value_eq] at hvalue
    rw [hsplits.split? (hvalue ▸ hlt) hfeed, hvalue]

lemma eq_of_parse_eq_error {e : VersionError} (h : parse text = .error e) :
    e = .malformedDescription text := by
  unfold parse at h
  split at h
  · simp at h
  · exact (Except.error.inj h).symm

lemma parse_eq_error (h : ¬ ∃ parts digits, Writes text digits parts) :
    parse text = .error (.malformedDescription text) := by
  cases hparse : parse text with
  | ok parts => exact absurd ⟨parts, parse_eq_ok_iff.mp hparse⟩ h
  | error e => rw [eq_of_parse_eq_error hparse]

/-! ### Writing -/

lemma splits_joined (tag : String) (distance : Nat)
    (hhex : ∀ c ∈ hash.toList, Hex.isDigit c = true) (hlen : 3 ≤ hash.toList.length) :
    Splits (joined tag distance hash) tag (toString distance) hash where
  eq := rfl
  ne_empty := by simp
  digits := by
    rw [Nat.toString_eq_ofList_toDigits, String.toList_ofList]
    exact fun c => Nat.isDigit_of_mem_toDigits (by decide) (by decide)
  length := hlen
  hash := hhex

/-- **A written description is read back**, whatever the tag but for line feeds. -/
theorem parse_joined {distance : Nat} (hhex : ∀ c ∈ hash.toList, Hex.isDigit c = true)
    (hlen : 3 ≤ hash.toList.length) (hlt : distance < distanceBound) (hfeed : '\n' ∉ tag.toList) :
    parse (joined tag distance hash) = .ok ⟨tag, distance, hash⟩ := by
  refine parse_eq_ok_iff.mpr ⟨_, splits_joined tag distance hhex hlen, ?_, hlt, hfeed⟩
  rw [Nat.toString_eq_ofList_toDigits, String.toList_ofList, Nat.ofDigitChars_ten_toDigits]

/-- Behind a tag with a line feed it cannot be read. -/
lemma parse_joined_of_feed {distance : Nat} (hhex : ∀ c ∈ hash.toList, Hex.isDigit c = true)
    (hlen : 3 ≤ hash.toList.length) (hfeed : '\n' ∈ tag.toList) :
    parse (joined tag distance hash) =
      .error (.malformedDescription (joined tag distance hash)) := by
  refine parse_eq_error ?_
  rintro ⟨parts, digits, hwrites⟩
  obtain ⟨rfl, -, -⟩ := (splits_joined tag distance hhex hlen).unique hwrites.splits
  exact hwrites.feed hfeed

lemma distance_eq_zero_iff {d : Description} : d.distance = 0 ↔ d.distance.toNat = 0 :=
  UInt32.toNat_inj.symm

lemma text_eq_joined {d : Description} (htag : d.tag = some tag) (hpos : 0 < d.distance.toNat) :
    d.text = joined tag d.distance.toNat d.shortHash := by
  unfold Description.text
  rw [htag]
  exact if_neg (distance_eq_zero_iff.not.mpr (Nat.ne_of_gt hpos))

/-- Digits are the printed form of a positive number just if the first of them is no zero. -/
lemma Writes.toString_eq_iff (h : Writes text digits parts) (hpos : 0 < parts.distance) :
    toString parts.distance = digits ↔ digits.toList.head? ≠ some '0' := by
  have hne : digits.toList ≠ [] := by simpa using h.splits.ne_empty
  rw [← String.toList_inj, Nat.toString_eq_ofList_toDigits, String.toList_ofList]
  constructor
  · intro heq
    rw [← heq]
    exact Decimal.head?_toDigits hpos
  · intro hzero
    rw [← h.value, ← Decimal.value_eq]
    exact (Decimal.toDigits_value hne h.splits.digits hzero).2

lemma Writes.text_eq_iff (h : Writes text digits parts) {d : Description}
    (htag : d.tag = some parts.tag) (hdistance : d.distance.toNat = parts.distance)
    (hhash : d.shortHash = parts.hash) :
    d.text = text ↔ 0 < parts.distance ∧ digits.toList.head? ≠ some '0' := by
  rcases Nat.eq_zero_or_pos parts.distance with hzero | hpos
  · refine iff_of_false (fun heq => ?_) (by simp [hzero])
    have hlen := congrArg (List.length ∘ String.toList) (heq.trans h.splits.eq)
    simp [Description.text, htag, distance_eq_zero_iff, hdistance, hzero] at hlen
  · rw [text_eq_joined htag (hdistance ▸ hpos), hdistance, hhash, and_iff_right hpos,
      ← h.toString_eq_iff hpos, h.splits.eq, joined, String.append_left_inj,
      String.append_left_inj, String.append_right_inj]

/-- **The grammar of descriptions.** A text is read as some parts just if it is split up into them,
which happens in one way at most; every other text is told to be malformed. What was read is written
again as the same text just if the distance is positive and its digits begin with no zero. -/
theorem parse_grammar (text : String) :
    (∀ parts, parse text = .ok parts ↔ ∃ digits, Writes text digits parts) ∧
    (∀ tag digits hash tag' digits' hash', Splits text tag digits hash →
      Splits text tag' digits' hash' → tag = tag' ∧ digits = digits' ∧ hash = hash') ∧
    ((¬ ∃ parts digits, Writes text digits parts) →
      parse text = .error (.malformedDescription text)) ∧
    ∀ parts digits head, Writes text digits parts →
      ((⟨some parts.tag, .ofNat parts.distance, parts.hash, head⟩ : Description).text = text ↔
        0 < parts.distance ∧ digits.toList.head? ≠ some '0') :=
  ⟨fun _ => parse_eq_ok_iff, fun _ _ _ _ _ _ => Splits.unique, parse_eq_error,
    fun _ _ _ hwrites => hwrites.text_eq_iff rfl (UInt32.toNat_ofNat_of_lt' hwrites.bound) rfl⟩

theorem parse_grammar_nested :
    let text := "v1-2-gabc-007-gDEF0"
    Writes text "007" ⟨"v1-2-gabc", 7, "DEF0"⟩ ∧ parse text = .ok ⟨"v1-2-gabc", 7, "DEF0"⟩ ∧
      ∀ head, (⟨some "v1-2-gabc", 7, "DEF0", head⟩ : Description).text ≠ text := by
  intro text
  have hwrites : Writes text "007" ⟨"v1-2-gabc", 7, "DEF0"⟩ :=
    { splits :=
        { eq := by decide
          ne_empty := by decide
          digits := List.all_eq_true.mp (by decide)
          length := by decide
          hash := List.all_eq_true.mp (by decide) }
      value := by decide
      bound := by decide
      feed := by decide }
  obtain ⟨hreads, -, -, htext⟩ := parse_grammar text
  refine ⟨hwrites, (hreads _).mpr ⟨_, hwrites⟩, fun head heq => ?_⟩
  exact ((htext _ _ head hwrites).mp heq).2 (by decide)

end TagVersion.Description
