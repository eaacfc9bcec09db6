import TagVersion.Proofs.Config.Usable

/-!
Which log directives a configuration may hold. A directive is checked with the white space at its
ends and used without it, so not every directive that could be used is accepted. Those are refused
that have white space at an end of a part with `=`, and those with a part that is nothing else.
-/

namespace TagVersion

namespace Log

open Blank

namespace Filter

variable {cs : List Char} {c : Char}

lemma map_trim_splitOn_cons (hc : isBlank c = true) (cs : List Char) :
    ((c :: cs).splitOn ',').map trim = (cs.splitOn ',').map trim := by
  rw [splitOn_cons (ne_comma_of_isBlank hc)]
  cases cs.splitOn ',' with
  | nil => rfl
  | cons first parts => rw [List.modifyHead_cons, List.map_cons, List.map_cons, trim_cons hc]

lemma map_trim_splitOn_append_singleton (hc : isBlank c = true) (cs : List Char) :
    ((cs ++ [c]).splitOn ',').map trim = (cs.splitOn ',').map trim := by
  obtain ⟨parts, last, hcs, happend⟩ := exists_splitOn_append (ne_comma_of_isBlank hc) cs
  rw [hcs, happend, List.map_append, List.map_append, List.map_singleton, List.map_singleton,
    trim_append_singleton hc]

/-- White space at the ends of a text stays at the ends of its parts. -/
lemma map_trim_splitOn_trim (cs : List Char) :
    ((trim cs).splitOn ',').map trim = (cs.splitOn ',').map trim :=
  trim_induction (fun _ ds hc h => (map_trim_splitOn_cons hc ds).symm.trans h)
    (fun ds _ hc h => (map_trim_splitOn_append_singleton hc ds).symm.trans h) rfl

/-- What is a filter without the white space at its ends is one with it if every part bears it. -/
lemma reads_iff_of_reads_trim (h : Reads (trim cs)) : Reads cs ↔
    ∀ part ∈ cs.splitOn ',', part ≠ [] → trim part ≠ [] ∧ ('=' ∈ part → trim part = part) := by
  constructor
  · intro hreads part hpart hne
    have hread := hreads part hpart hne
    exact ⟨Directive.trim_ne_nil_of_reads hread, Directive.trim_eq_of_reads hread⟩
  · intro hparts part hpart hne
    obtain ⟨hblank, hkeep⟩ := hparts part hpart hne
    have hmem : trim part ∈ ((trim cs).splitOn ',').map trim := by
      rw [map_trim_splitOn_trim]
      exact List.mem_map_of_mem hpart
    obtain ⟨other, hother, heq⟩ := List.mem_map.mp hmem
    have hne' : other ≠ [] := by
      rintro rfl
      exact hblank heq.symm
    exact Directive.reads_of_trim_eq (h other hother hne') heq hkeep

end Filter

end Log

namespace Config

open Log

variable {text : String} {f : Filter}

/-- **Which of the directives that can be used are accepted.** A directive that is not blank and is
a filter without the white space at its ends makes the filter of a run, be it from the environment
or from the configuration. A configuration that holds it is refused all the same if a part of it is
white space, or has a `=` and white space at an end; and only then. -/
theorem validate_log_iff (hne : Blank.trim text.toList ≠ [])
    (hf : Filter.ofText (String.ofList (Blank.trim text.toList)) = .ok f) :
    Filter.choose false (some text) none = f ∧ Filter.choose false none (some text) = f ∧
      (Global.validate ⟨none, some text⟩ = .ok () ↔
        ∀ part ∈ text.toList.splitOn ',', part ≠ [] →
          Blank.trim part ≠ [] ∧ ('=' ∈ part → Blank.trim part = part)) := by
  have hsource : Filter.ofSource? (some text) = some f := Filter.ofSource?_of_ofText hne hf
  have hnone : Filter.ofSource? none = none := rfl
  have hreads : Filter.Reads (Blank.trim text.toList) := by
    rw [← String.toList_ofList (l := Blank.trim text.toList)]
    exact Filter.exists_ofText_iff.mp ⟨f, hf⟩
  refine ⟨?_, ?_, ?_⟩
  · simp [Filter.choose, hsource]
  · simp [Filter.choose, hsource, hnone]
  · have hvalidate : Global.validate ⟨none, some text⟩ = validateLog (some text) := rfl
    rw [hvalidate, validateLog_eq_ok_iff, ← Filter.reads_iff_of_reads_trim hreads,
      ← Filter.exists_ofText_iff]
    simp

theorem validate_log_iff_indented :
    Filter.ofText "app,git=info" = .ok (Filter.choose false (some "  app,git=info") none) ∧
      Global.validate ⟨none, some "  app,git=info"⟩ = .ok () := by
  have htrim : Blank.trim "  app,git=info".toList = "app,git=info".toList := by decide
  have hf : Filter.ofText (String.ofList (Blank.trim "  app,git=info".toList)) =
      .ok ⟨[⟨some "git", .upTo .info⟩, ⟨some "app", .upTo .trace⟩]⟩ := by decide
  have hparts : ∀ part ∈ "  app,git=info".toList.splitOn ',', part ≠ [] →
      Blank.trim part ≠ [] ∧ ('=' ∈ part → Blank.trim part = part) := by decide
  obtain ⟨hchoose, -, hvalid⟩ := validate_log_iff (by rw [htrim]; decide) hf
  refine ⟨?_, hvalid.mpr hparts⟩
  rw [hchoose, ← hf, htrim, String.ofList_toList]

/-- Not every directive that can be used is accepted. -/
theorem not_forall_validate_log :
    ¬ ∀ text : String, Blank.trim text.toList ≠ [] →
      Filter.ofText (String.ofList (Blank.trim text.toList)) =
        .ok (Filter.choose false (some text) none) →
      Global.validate ⟨none, some text⟩ = .ok () := by
  intro hall
  have hvalid := hall "a=info " (by decide) (by decide)
  exact absurd hvalid (by decide)

end Config

end TagVersion
