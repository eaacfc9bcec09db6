import Mathlib.Tactic.Lemma
import TagVersion.Prefix

/-!
Which texts are prefixes. What is left of a tag's name without its prefix, told by how the name is
put together, and that what is written after the name stays behind what is left.
-/

namespace TagVersion.Prefix

/-- The name is the prefix, at most one `v`, and what is left. -/
def Leaves (p : Prefix) (name left : String) : Prop :=
  name = p.text ++ "v" ++ left ∨ name = p.text ++ left ∧ left.toList.head? ≠ some 'v'

variable {p : Prefix} {name : String} {rest : List Char}

lemma ofText?_eq_some_iff {text : String} : ofText? text = some p ↔ p.text = text := by
  obtain ⟨own, hallowed⟩ := p
  unfold ofText?
  constructor
  · intro h
    split at h
    · exact (congrArg Prefix.text (Option.some.inj h)).symm
    · simp at h
  · rintro rfl
    rw [dif_pos hallowed]

lemma isPrefixOf?_append (front rest : List Char) :
    front.isPrefixOf? (front ++ rest) = some rest := by
  induction front with
  | nil => cases rest <;> rfl
  | cons c front ih =>
    show (if c == c then front.isPrefixOf? (front ++ rest) else none) = some rest
    rw [if_pos (beq_self_eq_true c), ih]

lemma strip_of_v (h : name.toList = p.text.toList ++ 'v' :: rest) :
    p.strip name = String.ofList rest := by
  rw [strip, h, isPrefixOf?_append]
  rfl

lemma strip_of_not_v (h : name.toList = p.text.toList ++ rest) (hv : rest.head? ≠ some 'v') :
    p.strip name = String.ofList rest := by
  rw [strip, h, isPrefixOf?_append]
  split <;> simp_all

/-- **Stripping a name leaves what it should.** -/
theorem leaves_strip (h : p.text.toList <+: name.toList) : p.Leaves name (p.strip name) := by
  obtain ⟨rest, hrest⟩ := h
  by_cases hv : rest.head? = some 'v'
  · obtain ⟨rest, rfl⟩ := List.head?_eq_some_iff.mp hv
    left
    rw [strip_of_v hrest.symm, ← String.toList_inj]
    simp [← hrest]
  · right
    rw [strip_of_not_v hrest.symm hv, ← String.toList_inj]
    simp [← hrest, hv]

lemma strip_eq_iff (h : p.text.toList <+: name.toList) {left : String} :
    p.strip name = left ↔ p.Leaves name left := by
  constructor
  · rintro rfl
    exact leaves_strip h
  · rintro (rfl | ⟨rfl, hv⟩)
    · have hname : (p.text ++ "v" ++ left).toList = p.text.toList ++ 'v' :: left.toList := by simp
      rw [strip_of_v hname, String.ofList_toList]
    · rw [strip_of_not_v String.toList_append hv, String.ofList_toList]

lemma of_mem_words {inside : Bool} {cs : List Char} (h : words inside cs = true) {c : Char}
    (hc : c ∈ cs) : c.isAlpha = true ∨ isSeparator c = true := by
  induction cs generalizing inside with
  | nil => simp at hc
  | cons d cs ih =>
    rw [words] at h
    split at h
    · next hd =>
      rcases List.mem_cons.mp hc with rfl | hc
      · exact .inl hd
      · exact ih h hc
    · simp only [Bool.and_eq_true] at h
      rcases List.mem_cons.mp hc with rfl | hc
      · exact .inr h.1.2
      · exact ih h.2 hc

/-- A prefix is made of letters and separators. -/
lemma of_mem_text {c : Char} (hc : c ∈ p.text.toList) :
    c.isAlpha = true ∨ isSeparator c = true := by
  have h := p.allowed
  generalize p.text.toList = cs at h hc
  unfold allows at h
  split at h
  · simp at hc
  · next d cs =>
    split at h
    · next hlead =>
      rcases List.mem_cons.mp hc with rfl | hc
      · right
        simp only [isLead, Bool.or_eq_true, isSeparator] at hlead ⊢
        exact .inl hlead
      · simp only [Bool.and_eq_true] at h
        exact of_mem_words h.2 hc
    · exact of_mem_words h hc

lemma mem_of_mem_strip (h : p.text.toList <+: name.toList) {c : Char}
    (hc : c ∈ (p.strip name).toList) : c ∈ name.toList := by
  rcases leaves_strip h with hname | ⟨hname, -⟩
  · rw [hname]
    simp [hc]
  · rw [hname]
    simp [hc]

/-- A prefix holds no line feed, so stripping takes none away. -/
lemma feed_mem_strip_iff (h : p.text.toList <+: name.toList) :
    '\n' ∈ (p.strip name).toList ↔ '\n' ∈ name.toList := by
  refine ⟨mem_of_mem_strip h, fun hc => ?_⟩
  have hown : '\n' ∉ p.text.toList := fun hmem => absurd (of_mem_text hmem) (by decide)
  rcases leaves_strip h with hname | ⟨hname, -⟩
  · rw [hname] at hc
    simpa [hown] using hc
  · rw [hname] at hc
    simpa [hown] using hc

lemma strip_append (h : p.text.toList <+: name.toList) {more : String}
    (hmore : more.toList.head? ≠ some 'v') : p.strip (name ++ more) = p.strip name ++ more := by
  obtain ⟨rest, hrest⟩ := h
  have happend : (name ++ more).toList = p.text.toList ++ (rest ++ more.toList) := by
    rw [String.toList_append, ← hrest, List.append_assoc]
  by_cases hv : rest.head? = some 'v'
  · obtain ⟨rest, rfl⟩ := List.head?_eq_some_iff.mp hv
    rw [strip_of_v hrest.symm, strip_of_v happend, ← String.toList_inj]
    simp
  · have hv' : (rest ++ more.toList).head? ≠ some 'v' := by
      cases rest with
      | nil => exact hmore
      | cons c rest => simpa using hv
    rw [strip_of_not_v hrest.symm hv, strip_of_not_v happend hv', ← String.toList_inj]
    simp

end TagVersion.Prefix
