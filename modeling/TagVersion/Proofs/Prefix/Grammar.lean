import TagVersion.Proofs.Prefix
import TagVersion.VersionError

/-!
The language of prefixes, told without the recogniser: nothing, or tokens of letters that a
separator closes, with at most one lead in front. The recogniser accepts just this language. Behind
a prefix that is not empty it stands where it stood at the first token, so what may follow there is
more tokens, and nothing else.
-/

namespace TagVersion.Prefix

/-- Letters of ASCII, one or more, and the separator that closes them. -/
def IsToken (cs : List Char) : Prop :=
  ∃ letters close, letters ≠ [] ∧ (∀ c ∈ letters, c.isAlpha = true) ∧
    close ∈ ['/', '@', '-'] ∧ cs = letters ++ [close]

/-- The language of prefixes. -/
inductive Formed : List Char → Prop where
  | empty : Formed []
  | tokens {lead : List Char} {tokens : List (List Char)} : lead ∈ [[], ['/'], ['@']] →
      tokens ≠ [] → (∀ token ∈ tokens, IsToken token) → Formed (lead ++ tokens.flatten)

variable {c : Char} {cs rest letters lead token : List Char} {tokens : List (List Char)}
  {inside : Bool}

lemma isSeparator_iff : isSeparator c = true ↔ c ∈ ['/', '@', '-'] := by
  simp [isSeparator, or_assoc]

lemma isLead_iff : isLead c = true ↔ c ∈ ['/', '@'] := by
  simp [isLead]

lemma isAlpha_eq_false (h : isSeparator c = true) : c.isAlpha = false := by
  have hcases : c = '/' ∨ c = '@' ∨ c = '-' := by simpa using isSeparator_iff.mp h
  rcases hcases with rfl | rfl | rfl <;> rfl

lemma isSeparator_of_isLead (h : isLead c = true) : isSeparator c = true := by
  have hcases : c = '/' ∨ c = '@' := by simpa using isLead_iff.mp h
  rcases hcases with rfl | rfl <;> rfl

lemma isLead_eq_false (h : c.isAlpha = true) : isLead c = false := by
  refine Bool.eq_false_iff.mpr fun hlead => ?_
  rw [isAlpha_eq_false (isSeparator_of_isLead hlead)] at h
  cases h

/-! ### Words -/

lemma words_letters (hne : letters ≠ []) (halpha : ∀ c ∈ letters, c.isAlpha = true) :
    words inside (letters ++ rest) = words true rest := by
  induction letters generalizing inside with
  | nil => exact absurd rfl hne
  | cons c letters ih =>
    obtain ⟨hc, hletters⟩ := List.forall_mem_cons.mp halpha
    rw [List.cons_append, words, if_pos hc]
    cases letters with
    | nil => rfl
    | cons d letters => exact ih (List.cons_ne_nil _ _) hletters

lemma words_token (h : IsToken token) : words inside (token ++ rest) = words false rest := by
  obtain ⟨letters, close, hne, halpha, hclose, rfl⟩ := h
  have hseparator := isSeparator_iff.mpr hclose
  rw [List.append_assoc, words_letters hne halpha, List.singleton_append, words,
    if_neg (by simp [isAlpha_eq_false hseparator]), hseparator, Bool.true_and, Bool.true_and]

/-- Behind whole tokens the recogniser stands where it began. -/
lemma words_flatten (h : ∀ token ∈ tokens, IsToken token) :
    words false (tokens.flatten ++ rest) = words false rest := by
  induction tokens with
  | nil => rfl
  | cons token tokens ih =>
    obtain ⟨htoken, htokens⟩ := List.forall_mem_cons.mp h
    rw [List.flatten_cons, List.append_assoc, words_token htoken, ih htokens]

/-- What is accepted behind some letters makes tokens together with them. -/
lemma exists_tokens (halpha : ∀ c ∈ letters, c.isAlpha = true)
    (h : words (!letters.isEmpty) cs = true) :
    ∃ tokens : List (List Char),
      (∀ token ∈ tokens, IsToken token) ∧ letters ++ cs = tokens.flatten := by
  induction cs generalizing letters with
  | nil =>
    obtain rfl : letters = [] := by simpa [words] using h
    exact ⟨[], by simp, rfl⟩
  | cons c cs ih =>
    rw [words] at h
    split at h
    · next hc =>
      have hmore : ∀ d ∈ letters ++ [c], d.isAlpha = true := by
        simpa [or_imp, forall_and] using ⟨halpha, hc⟩
      have hopen : (!(letters ++ [c]).isEmpty) = true := by cases letters <;> rfl
      obtain ⟨tokens, htokens, heq⟩ := ih hmore (hopen ▸ h)
      exact ⟨tokens, htokens, by simpa using heq⟩
    · simp only [Bool.and_eq_true] at h
      obtain ⟨⟨hopen, hclose⟩, hrest⟩ := h
      have hnone : ∀ d ∈ ([] : List Char), d.isAlpha = true := by simp
      obtain ⟨tokens, htokens, heq⟩ := ih hnone hrest
      have htoken : IsToken (letters ++ [c]) :=
        ⟨letters, c, by simpa using hopen, halpha, isSeparator_iff.mp hclose, rfl⟩
      refine ⟨(letters ++ [c]) :: tokens, List.forall_mem_cons.mpr ⟨htoken, htokens⟩, ?_⟩
      rw [List.flatten_cons, ← heq]
      simp

lemma exists_tokens_of_words (h : words false cs = true) :
    ∃ tokens : List (List Char), (∀ token ∈ tokens, IsToken token) ∧ cs = tokens.flatten := by
  have hnone : ∀ c ∈ ([] : List Char), c.isAlpha = true := by simp
  exact exists_tokens hnone h

/-- Where no separator follows, no token is closed. -/
lemma words_eq_false (hsep : ∀ c ∈ cs, isSeparator c = false) (h : cs ≠ [] ∨ inside = true) :
    words inside cs = false := by
  induction cs generalizing inside with
  | nil => simpa [words] using h
  | cons c cs ih =>
    obtain ⟨hc, hcs⟩ := List.forall_mem_cons.mp hsep
    rw [words]
    split
    · exact ih hcs (.inr rfl)
    · rw [hc, Bool.and_false, Bool.false_and]

/-! ### Prefixes -/

lemma exists_cons_of_isToken (h : IsToken token) :
    ∃ c rest, token = c :: rest ∧ c.isAlpha = true := by
  obtain ⟨letters, close, hne, halpha, -, rfl⟩ := h
  obtain ⟨c, letters, rfl⟩ := List.exists_cons_of_ne_nil hne
  exact ⟨c, letters ++ [close], rfl, halpha c (.head _)⟩

lemma allows_of_not_isLead (h : isLead c = false) :
    allows (c :: rest) = words false (c :: rest) := by
  rw [allows, if_neg (by simp [h])]

/-- Behind a lead and tokens, what may follow is more tokens. -/
lemma allows_tokens (hlead : lead ∈ [[], ['/'], ['@']]) (hne : tokens ≠ [])
    (htokens : ∀ token ∈ tokens, IsToken token) :
    allows (lead ++ (tokens.flatten ++ rest)) = words false rest := by
  obtain ⟨token, tokens, rfl⟩ := List.exists_cons_of_ne_nil hne
  obtain ⟨c, token, rfl, hc⟩ := exists_cons_of_isToken (htokens token (.head _))
  rw [← words_flatten htokens]
  simp only [List.flatten_cons, List.cons_append]
  have hlead : lead = [] ∨ ∃ d, isLead d = true ∧ lead = [d] := by
    simp only [List.mem_cons, List.not_mem_nil, or_false] at hlead
    rcases hlead with rfl | rfl | rfl
    · exact .inl rfl
    · exact .inr ⟨_, rfl, rfl⟩
    · exact .inr ⟨_, rfl, rfl⟩
  rcases hlead with rfl | ⟨d, hd, rfl⟩
  · exact allows_of_not_isLead (isLead_eq_false hc)
  · rw [List.singleton_append, allows, if_pos hd]
    rfl

/-- **The recogniser accepts the language.** -/
theorem allows_iff_formed : allows cs = true ↔ Formed cs := by
  constructor
  · intro h
    cases cs with
    | nil => exact .empty
    | cons c rest =>
      cases hlead : isLead c with
      | true =>
        rw [allows, if_pos hlead, Bool.and_eq_true] at h
        obtain ⟨tokens, htokens, rfl⟩ := exists_tokens_of_words h.2
        have hmem : [c] ∈ [[], ['/'], ['@']] := by simpa using isLead_iff.mp hlead
        refine .tokens hmem (fun hnil => ?_) htokens
        simp [hnil] at h
      | false =>
        rw [allows_of_not_isLead hlead] at h
        obtain ⟨tokens, htokens, heq⟩ := exists_tokens_of_words h
        have hmem : [] ∈ [[], ['/'], ['@']] := .head _
        rw [heq]
        refine .tokens hmem (fun hnil => ?_) htokens
        simp [hnil] at heq
  · rintro (_ | ⟨hlead, hne, htokens⟩)
    · rfl
    · rw [← List.append_nil (List.flatten _), allows_tokens hlead hne htokens]
      rfl

/-- Behind a prefix, what may follow is more tokens. -/
lemma allows_append (h : allows cs = true) (hne : cs ≠ []) :
    allows (cs ++ rest) = words false rest := by
  rcases allows_iff_formed.mp h with _ | ⟨hlead, htokens, hall⟩
  · exact absurd rfl hne
  · rw [List.append_assoc, allows_tokens hlead htokens hall]

/-- Behind a prefix, what holds no separator leaves a token open. -/
lemma allows_append_eq_false (h : allows cs = true) (hne : rest ≠ [])
    (hsep : ∀ c ∈ rest, isSeparator c = false) : allows (cs ++ rest) = false := by
  cases cs with
  | cons c cs => rw [allows_append h (List.cons_ne_nil _ _), words_eq_false hsep (.inl hne)]
  | nil =>
    obtain ⟨c, rest, rfl⟩ := List.exists_cons_of_ne_nil hne
    have hlead : isLead c = false := by
      refine Bool.eq_false_iff.mpr fun hlead => ?_
      simp [isSeparator_of_isLead hlead] at hsep
    rw [List.nil_append, allows_of_not_isLead hlead, words_eq_false hsep (.inl hne)]

/-- A prefix is tokens alone just if it begins with a letter. -/
lemma words_iff_of_allows (h : allows cs = true) (hne : cs ≠ []) :
    words false cs = true ↔ ∃ c rest, cs = c :: rest ∧ c.isAlpha = true := by
  obtain ⟨c, rest, rfl⟩ := List.exists_cons_of_ne_nil hne
  cases hc : c.isAlpha with
  | true =>
    rw [allows_of_not_isLead (isLead_eq_false hc)] at h
    exact iff_of_true h ⟨c, rest, rfl, hc⟩
  | false =>
    refine iff_of_false (by simp [words, hc]) ?_
    rintro ⟨_, _, ⟨⟩, halpha⟩
    rw [hc] at halpha
    cases halpha

/-! ### Reading -/

lemma ofText_eq_ok_iff {text : String} {p : Prefix} :
    ofText text = .ok p ↔ p.text = text := by
  rw [← ofText?_eq_some_iff, ofText]
  cases ofText? text <;> simp

lemma exists_ofText_iff {text : String} :
    (∃ p, ofText text = .ok p) ↔ allows text.toList = true := by
  simp only [ofText_eq_ok_iff]
  exact ⟨fun ⟨p, hp⟩ => hp ▸ p.allowed, fun h => ⟨⟨text, h⟩, rfl⟩⟩

lemma ofText_eq_error_iff {text : String} {e : VersionError} :
    ofText text = .error e ↔ allows text.toList = false ∧ e = .invalidPrefix text := by
  have hsome : (∃ p, ofText text = .ok p) ↔ _ := exists_ofText_iff
  unfold ofText at hsome ⊢
  cases hread : ofText? text with
  | some p =>
    rw [hread] at hsome
    simp [hsome.mp ⟨p, rfl⟩]
  | none =>
    rw [hread] at hsome
    have hnot : allows text.toList = false := by
      refine Bool.eq_false_iff.mpr fun h => ?_
      simpa using hsome.mpr h
    simp [hnot, eq_comm]

/-- **Just the language of prefixes is read,** and each prefix is kept as it is spelled; of another
text the failure tells the text. So a prefix with nothing but letters behind it, of whatever
alphabet, is none; and two prefixes together, neither of them empty, are one just if the second
begins with a letter. -/
theorem ofText_language :
    (∀ text p, ofText text = .ok p ↔ Formed text.toList ∧ p.text = text) ∧
    (∀ text e, ofText text = .error e ↔ ¬ Formed text.toList ∧ e = .invalidPrefix text) ∧
    (∀ (p : Prefix) (more : String), more ≠ "" → (∀ c ∈ more.toList, c ∉ ['/', '@', '-']) →
      ofText (p.text ++ more) = .error (.invalidPrefix (p.text ++ more))) ∧
    ∀ p q : Prefix, p.text ≠ "" → q.text ≠ "" →
      ((∃ r, ofText (p.text ++ q.text) = .ok r) ↔
        ∃ c rest, q.text.toList = c :: rest ∧ c.isAlpha = true) := by
  refine ⟨fun text p => ?_, fun text e => ?_, fun p more hmore hletters => ?_,
    fun p q hp hq => ?_⟩
  · rw [ofText_eq_ok_iff, ← allows_iff_formed]
    exact ⟨fun h => ⟨h ▸ p.allowed, h⟩, And.right⟩
  · rw [ofText_eq_error_iff, ← allows_iff_formed, Bool.not_eq_true]
  · rw [ofText_eq_error_iff, String.toList_append]
    have hsep : ∀ c ∈ more.toList, isSeparator c = false := fun c hc =>
      Bool.eq_false_iff.mpr fun hsep => hletters c hc (isSeparator_iff.mp hsep)
    exact ⟨allows_append_eq_false p.allowed (by simpa using hmore) hsep, rfl⟩
  · rw [exists_ofText_iff, String.toList_append,
      allows_append p.allowed (by simpa using hp),
      words_iff_of_allows q.allowed (by simpa using hq)]

/-- A prefix of two tokens behind a lead; with a letter behind it, which is not of ASCII; and twice
over, and behind a prefix without a lead. -/
theorem ofText_language_led :
    ∃ p q : Prefix, ofText "/my-@" = .error (.invalidPrefix "/my-@") ∧
      ofText "/my-product@" = .ok p ∧ ofText "v/" = .ok q ∧
      ofText "/my-product@é" = .error (.invalidPrefix "/my-product@é") ∧
      (∃ r, ofText ("/my-product@" ++ "v/") = .ok r) ∧
      ¬ ∃ r, ofText ("v/" ++ "/my-product@") = .ok r := by
  obtain ⟨hread, -, hletters, happend⟩ := ofText_language
  refine ⟨⟨"/my-product@", by decide⟩, ⟨"v/", by decide⟩, rfl, ?_, ?_, ?_, ?_, ?_⟩
  · exact (hread _ _).mpr ⟨allows_iff_formed.mp rfl, rfl⟩
  · exact (hread _ _).mpr ⟨allows_iff_formed.mp rfl, rfl⟩
  · exact hletters ⟨"/my-product@", by decide⟩ "é" (by decide) (by simp)
  · exact (happend ⟨"/my-product@", by decide⟩ ⟨"v/", by decide⟩ (by decide) (by decide)).mpr
      ⟨'v', ['/'], rfl, rfl⟩
  · rw [happend ⟨"v/", by decide⟩ ⟨"/my-product@", by decide⟩ (by decide) (by decide)]
    rintro ⟨_, _, hcons, halpha⟩
    obtain ⟨rfl, -⟩ := List.cons.inj hcons
    cases halpha

end TagVersion.Prefix
