import TagVersion.Proofs.Describe.Nearest

/-!
One tip described by fewer tags. A longer prefix leaves fewer tags to choose from, so what it finds
is no nearer than what the shorter one finds, and nothing where the shorter one finds nothing. On
the same commit the shorter one finds the same tag or a better one. Only a walk of more steps than
can be counted may look shorter than it is.
-/

namespace TagVersion

namespace Describe

variable {tags fewer : Set Tag} {chain : List ObjectId} {x y : Option Tag × Nat} {t u : Tag}
  {d : Nat}

lemma IsNearest.distance_le (hx : IsNearest tags chain x) (hy : IsNearest fewer chain y)
    (hsub : fewer ⊆ tags) : x.2 ≤ y.2 := by
  obtain ⟨_ | t, d⟩ := x <;> obtain ⟨_ | u, e⟩ := y
  · obtain ⟨hd, -⟩ := hx
    obtain ⟨he, -⟩ := hy
    show d ≤ e
    omega
  · exact absurd (List.mem_of_getElem? hy.2.1) (hx.2 u (hsub hy.1))
  · have hlt : d < chain.length := hx.lt_length
    obtain ⟨he, -⟩ := hy
    show d ≤ e
    omega
  · by_contra hlt
    exact hx.2.2.1 e (Nat.not_le.mp hlt) u (hsub hy.1) hy.2.1

/-- Where none of the tags sits on the chain, none of fewer tags does. -/
lemma IsNearest.eq_of_none (hx : IsNearest tags chain (none, d)) (hy : IsNearest fewer chain y)
    (hsub : fewer ⊆ tags) : y = (none, d) :=
  have hnone : IsNearest fewer chain (none, d) := ⟨hx.1, fun v hv => hx.2 v (hsub hv)⟩
  hy.unique hnone

lemma IsNearest.eq_or_beats (hx : IsNearest tags chain (some t, d))
    (hy : IsNearest fewer chain (some u, d)) (hsub : fewer ⊆ tags) :
    t.peeled = u.peeled ∧ (t = u ∨ t.Beats u) := by
  have hpeeled : t.peeled = u.peeled := Option.some.inj (hx.2.1.symm.trans hy.2.1)
  refine ⟨hpeeled, ?_⟩
  by_cases heq : t = u
  · exact .inl heq
  · exact .inr (hx.2.2.2 u (hsub hy.1) hpeeled.symm (Ne.symm heq))

end Describe

namespace Repository

open Describe

variable {r : Repository} {all : List TagRef} {start longer : String}

lemma tagged_subset (hstart : start.toList <+: longer.toList) :
    r.tagged all longer ⊆ r.tagged all start := by
  rintro t ⟨ref, href, hlonger, hleads⟩
  exact ⟨ref, href, hstart.trans hlonger, hleads⟩

/-- **Narrowing the prefix never brings the tag nearer,** as long as the steps for the longer prefix
can be counted. A repository that answers every question and has a tip is described for both. The
distance does not shrink; without a tag for the shorter prefix there is none for the longer, at the
same distance; and where both name a tag at one distance, the two sit on one commit and the shorter
prefix names the same tag or a better one. -/
theorem describe_narrowed (h : r.Answers all) {tip : ObjectId} {chain : List ObjectId}
    (hhead : r.head = .ok (some tip)) (hchain : FirstParents r.parents? tip chain)
    (hstart : start.toList <+: longer.toList) (hcounted : IsCounted (r.tagged all longer) chain) :
    ∃ wide narrow, (r.describe start).outcome = .ok (some wide) ∧
      (r.describe longer).outcome = .ok (some narrow) ∧
      wide.distance ≤ narrow.distance ∧
      (wide.tag = none → narrow.tag = none ∧ narrow.distance = wide.distance) ∧
      (wide.tag ≠ none → narrow.tag ≠ none → narrow.distance = wide.distance →
        ∃ t ∈ r.tagged all start, ∃ u ∈ r.tagged all longer, wide.tag = some t.name ∧
          narrow.tag = some u.name ∧ t.peeled = u.peeled ∧ (t = u ∨ t.Beats u)) := by
  obtain ⟨x, hx, hwide⟩ := describe_of_tip h hhead hchain start
  obtain ⟨y, hy, hnarrow⟩ := describe_of_tip h hhead hchain longer
  have hsub : r.tagged all longer ⊆ r.tagged all start := tagged_subset hstart
  have hle := hx.distance_le hy hsub
  have hnarrowed := toNat_distance_describedBy (hcounted y hy) tip
  have hwidened := toNat_distance_describedBy (hle.trans_lt (hcounted y hy)) tip
  refine ⟨_, _, hwide, hnarrow, ?_, ?_, ?_⟩
  · rw [UInt32.le_iff_toNat_le]
    exact hwidened.trans_le (hle.trans_eq hnarrowed.symm)
  · intro hnone
    obtain ⟨_ | t, d⟩ := x
    · obtain rfl := hx.eq_of_none hy hsub
      exact ⟨rfl, rfl⟩
    · simp [describedBy] at hnone
  · intro hsome hsome' heq
    obtain ⟨_ | t, d⟩ := x
    · exact absurd rfl hsome
    obtain ⟨_ | u, e⟩ := y
    · exact absurd rfl hsome'
    obtain rfl : e = d :=
      hnarrowed.symm.trans ((congrArg UInt32.toNat heq).trans hwidened)
    obtain ⟨hpeeled, hbeats⟩ := hx.eq_or_beats hy hsub
    exact ⟨t, hx.1, u, hy.1, rfl, rfl, hpeeled, hbeats⟩

theorem describe_narrowed_merged :
    let r := History.merged.repository
    let all := History.merged.tags.map fun named => ⟨named.1, named.2⟩
    r.Answers all ∧ r.head = .ok (some (History.idOf 5)) ∧ "v".toList <+: "v1".toList ∧
      FirstParents r.parents? (History.idOf 5) [History.idOf 5, History.idOf 1] ∧
      IsCounted (r.tagged all "v1") [History.idOf 5, History.idOf 1] ∧
      ∃ wide narrow, (r.describe "v").outcome = .ok (some wide) ∧
        (r.describe "v1").outcome = .ok (some narrow) ∧
        wide.tag = some "v0" ∧ narrow.tag = some "v1" ∧
        ∃ t ∈ r.tagged all "v", ∃ u ∈ r.tagged all "v1", t.name = "v0" ∧ u.name = "v1" ∧
          t.Beats u := by
  intro r all
  have hanswers : r.Answers all := answers_history History.built_merged.coherent rfl
  have hstart : "v".toList <+: "v1".toList := by decide
  have hchain : FirstParents r.parents? (History.idOf 5) [History.idOf 5, History.idOf 1] :=
    .step rfl (.last rfl)
  have hcounted : IsCounted (r.tagged all "v1") [History.idOf 5, History.idOf 1] :=
    isCounted_of_length_le (by decide) _
  refine ⟨hanswers, rfl, hstart, hchain, hcounted, ?_⟩
  obtain ⟨wide, narrow, hwide, hnarrow, -, -, hbetter⟩ :=
    describe_narrowed hanswers rfl hchain hstart hcounted
  have hvalue : (r.describe "v").outcome = .ok (some ⟨some "v0", 1, "1715609", History.idOf 5⟩) :=
    rfl
  have hvalue' : (r.describe "v1").outcome =
      .ok (some ⟨some "v1", 1, "1715609", History.idOf 5⟩) := rfl
  obtain rfl : wide = _ := by simpa [hvalue] using hwide.symm
  obtain rfl : narrow = _ := by simpa [hvalue'] using hnarrow.symm
  obtain ⟨t, ht, u, hu, hname, hname', -, hbeats⟩ := hbetter (by simp) (by simp) rfl
  have hne : t ≠ u := by
    rintro rfl
    simp [← Option.some.inj hname] at hname'
  exact ⟨_, _, rfl, rfl, rfl, rfl, t, ht, u, hu, (Option.some.inj hname).symm,
    (Option.some.inj hname').symm, hbeats.resolve_left hne⟩

/-! ### More steps than can be counted -/

variable {n : Nat}

lemma mem_tagged_line_iff {t : Tag} :
    t ∈ (Line.repository (n + 1)).tagged [Line.tag (n + 1)] "" ↔
      t = ⟨"p", ObjectId.ofNumber n, ObjectId.ofNumber n, false, none⟩ := by
  constructor
  · rintro ⟨ref, href, -, hname, htarget, hpeel, hannotated, -, hplain⟩
    obtain rfl := List.mem_singleton.mp href
    obtain ⟨name, target, peeled, annotated, time⟩ := t
    simp only at hname htarget hannotated hplain
    obtain rfl : ObjectId.ofNumber n = peeled := Option.some.inj (Except.ok.inj hpeel)
    obtain rfl : annotated = false := by simpa [Line.tag] using hannotated
    rw [hname, htarget, hplain rfl]
    rfl
  · rintro rfl
    exact ⟨_, List.mem_singleton_self _, List.nil_prefix, rfl, rfl, rfl, by simp [Line.tag],
      by simp, fun _ => rfl⟩

/-- The tag of a line sits one step below its tip. -/
lemma isNearest_line_tag (hn : n + 1 < 16 ^ 40) :
    IsNearest ((Line.repository (n + 1)).tagged [Line.tag (n + 1)] "") (Line.chain (n + 1))
      (some ⟨"p", ObjectId.ofNumber n, ObjectId.ofNumber n, false, none⟩, 1) := by
  have hsecond : (Line.chain n)[0]? = some (ObjectId.ofNumber n) := by cases n <;> rfl
  refine ⟨mem_tagged_line_iff.mpr rfl, hsecond, fun i hi u hu heq => ?_, fun u hu _ hne => ?_⟩
  · obtain rfl := Nat.lt_one_iff.mp hi
    obtain rfl := mem_tagged_line_iff.mp hu
    have hsame := Line.ofNumber_injective hn (Nat.lt_of_succ_lt hn) (Option.some.inj heq)
    omega
  · exact absurd (mem_tagged_line_iff.mp hu) hne

/-- In a line that is one step longer than a distance can tell, the longer prefix brings the end
nearer than the shorter one brings the tag. -/
theorem not_describe_narrowed_beyond :
    let r := Line.repository (2 ^ 32)
    let all := [Line.tag (2 ^ 32)]
    let tip := ObjectId.ofNumber (2 ^ 32)
    r.Answers all ∧ r.head = .ok (some tip) ∧ "".toList <+: "q".toList ∧
      ∃ wide narrow, (r.describe "").outcome = .ok (some wide) ∧
        (r.describe "q").outcome = .ok (some narrow) ∧ wide.distance = 1 ∧ narrow.distance = 0 ∧
        ¬ wide.distance ≤ narrow.distance := by
  intro r all tip
  have hn : 2 ^ 32 < 16 ^ 40 := by simp
  have hwide := describe_line hn (isNearest_line_tag hn)
  have hnarrow := describe_line hn (isNearest_line_none (2 ^ 32))
  refine ⟨answers_line hn, rfl, List.nil_prefix, _, _, hwide, hnarrow, ?_, ?_, ?_⟩
  · decide
  · decide
  · decide

end Repository

end TagVersion
