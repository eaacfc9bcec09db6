import TagVersion.Proofs.Resolve.Version

/-!
What a version tells of the work tree and of the tip. A version is marked where the work tree has
changes, and is unspecified before the first commit; but a tag on the tip may be named so that what
the prefix leaves of it looks the same. No other version does, as all others end in digits of the
tip.
-/

namespace TagVersion

namespace Details

/-- Whether a version ends in the mark of a work tree with changes. -/
def IsMarked (version : String) : Prop := dirtyMark.toList <:+ version.toList

instance (version : String) : Decidable (IsMarked version) :=
  inferInstanceAs (Decidable (dirtyMark.toList <:+ version.toList))

variable {p : Prefix} {d : Description} {isClean : Bool} {version front hash : String}

lemma isMarked_marked_iff :
    IsMarked (marked isClean version) ↔ isClean = false ∨ IsMarked version := by
  cases isClean with
  | true => simp [marked]
  | false => simp [marked, IsMarked]

/-- A text that ends in digits of a hash is not marked. -/
lemma not_isMarked_append (hhex : ∀ c ∈ hash.toList, Hex.isDigit c = true)
    (hlen : 6 ≤ hash.toList.length) : ¬ IsMarked (front ++ hash) := by
  intro hmarked
  rw [IsMarked, String.toList_append] at hmarked
  have hsuffix : dirtyMark.toList <:+ hash.toList :=
    List.suffix_of_suffix_length_le hmarked (List.suffix_append _ _) hlen
  have hdigit := hhex '.' (hsuffix.subset (by decide))
  exact absurd hdigit (by decide)

lemma isMarked_append_iff (start : String) :
    (∃ front, start ++ version = start ++ front ++ dirtyMark) ↔ IsMarked version := by
  constructor
  · rintro ⟨front, hfront⟩
    rw [String.append_assoc, String.append_right_inj] at hfront
    rw [hfront, IsMarked, String.toList_append]
    exact List.suffix_append _ _
  · rintro ⟨front, hfront⟩
    refine ⟨String.ofList front, ?_⟩
    rw [← String.toList_inj]
    simp [← hfront]

/-- Taking off a prefix and one `v` leaves the end of a name as it is. -/
lemma isMarked_strip_iff {name : String} (hstart : p.text.toList <+: name.toList) :
    IsMarked (p.strip name) ↔ ∃ front, name = p.text ++ front ++ dirtyMark := by
  generalize hleft : p.strip name = left
  rcases (Prefix.strip_eq_iff hstart).mp hleft with rfl | ⟨rfl, -⟩
  · rw [String.append_assoc, isMarked_append_iff, IsMarked, IsMarked, String.toList_append]
    refine ⟨fun hends => hends.trans (List.suffix_append _ _), fun hends => ?_⟩
    rcases List.suffix_cons_iff.mp hends with heq | hends
    · exact absurd (List.head_eq_of_cons_eq heq) (by decide)
    · exact hends
  · rw [isMarked_append_iff]

lemma isMarked_behind_iff (hhex : ∀ c ∈ hash.toList, Hex.isDigit c = true)
    (hlen : 6 ≤ hash.toList.length) {distance : Nat} :
    IsMarked (version ++ behind distance hash) ↔ distance = 0 ∧ IsMarked version := by
  unfold behind
  split_ifs with hzero
  · simp [hzero]
  · rw [← String.append_assoc]
    simp [hzero, not_isMarked_append hhex hlen]

/-- No marked version is the one before the first commit. -/
lemma marked_eq_unspecified_iff :
    marked isClean version = unspecified ↔ isClean = true ∧ version = unspecified := by
  cases isClean with
  | true => simp [marked]
  | false =>
    refine iff_of_false (fun heq => ?_) (by simp)
    have hmarked : IsMarked unspecified := heq ▸ isMarked_marked_iff.mpr (.inl rfl)
    exact absurd hmarked (by decide)

lemma behind_eq_unspecified_iff {distance : Nat} :
    version ++ behind distance hash = unspecified ↔ distance = 0 ∧ version = unspecified := by
  unfold behind
  split_ifs with hzero
  · simp [hzero]
  · refine iff_of_false (fun heq => ?_) (by simp [hzero])
    have hdash : '-' ∈ unspecified.toList := by simp [← heq]
    exact absurd hdash (by decide)

lemma hash_ne_unspecified (hhex : ∀ c ∈ hash.toList, Hex.isDigit c = true) :
    hash ≠ unspecified := by
  rintro rfl
  exact absurd (hhex 'u' (by decide)) (by decide)

/-- However the parts of a description are read back, the version is the whole without the prefix,
or the hash alone. -/
lemma version_of_named {named : String × Option String × Nat} (h : Details.named p d = .ok named) :
    named.1 = if d.tag.isSome then p.strip d.text else d.shortHash := by
  cases htag : d.tag with
  | none =>
    rw [named_of_no_tag htag] at h
    simp [← Except.ok.inj h]
  | some tag =>
    rcases Nat.eq_zero_or_pos d.distance.toNat with hzero | hpos
    · rw [named_of_zero htag hzero] at h
      simp [← Except.ok.inj h]
    · rw [named_of_pos htag hpos] at h
      obtain ⟨parts, -, rfl⟩ := Outcome.map_eq_ok_iff.mp h
      simp

lemma version_of_ofDescription {branch : String} {details : Details}
    (h : ofDescription p (some d) isClean branch = .ok details) :
    details.version = marked isClean (if d.tag.isSome then p.strip d.text else d.shortHash) := by
  rw [ofDescription_some] at h
  obtain ⟨named, hnamed, rfl⟩ := Outcome.map_eq_ok_iff.mp h
  rw [← version_of_named hnamed]
  rfl

end Details

namespace History

open Reading Describe

variable {h : History} {tip : ObjectId} {chain : List ObjectId} {p : Prefix} {details : Details}

/-- The version of a tip by what is nearest to it, before it is marked. -/
def unmarked (p : Prefix) (tip : ObjectId) : Option Tag × Nat → String
  | (some t, d) => p.strip t.name ++ Details.behind d (tip.short 7)
  | (none, _) => tip.short 7

/-- Where resolving succeeds, no question has failed. -/
lemma resolve_eq_ok (hchain : ∀ tip, h.head = some tip → FirstParents h.parents? tip chain)
    (hok : (h.repository.resolve p).outcome = .ok details) :
    Details.ofDescription p ((h.facts p.text).description chain) h.clean
      (if h.head.isNone then "" else h.branch) = .ok details := by
  have hruns := runs_resolve p hchain
  cases hplan : ((h.facts p.text).resolvePlan p.text chain).findSome?
      (fun q => (h.injected q.kind).map VersionError.repository) with
  | none => rw [← (hruns.of_never hplan).2, hok]
  | some e => simp [hruns.outcome, verdict_of_eq_some hplan] at hok

/-- Before the first commit. -/
lemma version_of_unborn (hhead : h.head = none)
    (hok : (h.repository.resolve p).outcome = .ok details) :
    details.version = Details.unspecified := by
  have hchain : ∀ tip, h.head = some tip → FirstParents h.parents? tip [] := by simp [hhead]
  have hdetails := resolve_eq_ok hchain hok
  rw [Facts.description, head_facts, hhead, Option.map_none] at hdetails
  rw [← Except.ok.inj hdetails]

/-- What the description of a tip leaves for the version. -/
lemma unmarked_eq {found : Option Tag × Nat} (hlt : found.2 < 2 ^ 32)
    (hstart : ∀ t d, found = (some t, d) → p.text.toList <+: t.name.toList) :
    (if (describedBy tip found).tag.isSome then p.strip (describedBy tip found).text
      else (describedBy tip found).shortHash) = unmarked p tip found := by
  obtain ⟨_ | t, d⟩ := found
  · rfl
  · have htext : (describedBy tip (some t, d)).text = _ := Details.text_of_tag rfl
    rw [toNat_distance_describedBy hlt] at htext
    rw [htext, Prefix.strip_append (hstart t d rfl) (Details.head?_behind _ _)]
    rfl

/-- Whatever fails or does not, a version that is told is that of the nearest tag. -/
theorem version_of_tip (hb : h.Built) (hhead : h.head = some tip)
    (hok : (h.repository.resolve p).outcome = .ok details) :
    ∃ chain found, FirstParents h.parents? tip chain ∧
      IsNearest (h.tagged p.text) chain found ∧
      details.version = Details.marked h.clean (unmarked p tip found) := by
  obtain ⟨chain, hchain⟩ := hb.coherent.firstParents hhead
  have hends : ∀ tip', h.head = some tip' → FirstParents h.parents? tip' chain := by
    intro tip' htip'
    obtain rfl : tip = tip' := Option.some.inj (hhead.symm.trans htip')
    exact hchain
  have hnear := isNearest_facts hb.coherent hchain.ne_nil p.text
  have hlt := hnear.lt_length.trans (length_lt hb hchain)
  have hdetails := resolve_eq_ok hends hok
  rw [Facts.description, head_facts, hhead, Option.map_some] at hdetails
  refine ⟨chain, _, hchain, hnear, ?_⟩
  rw [Details.version_of_ofDescription hdetails]
  refine congrArg _ (unmarked_eq hlt fun t d hfound => ?_)
  rw [hfound] at hnear
  exact hnear.1.start

/-- Only the name of a tag on the tip itself may look like a mark. -/
lemma isMarked_unmarked_iff {found : Option Tag × Nat} :
    Details.IsMarked (unmarked p tip found) ↔
      ∃ t, found = (some t, 0) ∧ Details.IsMarked (p.strip t.name) := by
  have hhex : ∀ c ∈ (tip.short 7).toList, Hex.isDigit c = true :=
    fun _ => ObjectId.isDigit_of_mem_short
  have hlen : 6 ≤ (tip.short 7).toList.length := by
    rw [tip.length_short (by decide)]
    decide
  obtain ⟨_ | t, d⟩ := found
  · refine iff_of_false (fun hmarked => ?_) (by simp)
    have hfront : "" ++ tip.short 7 = unmarked p tip (none, d) := String.empty_append
    rw [← hfront] at hmarked
    exact Details.not_isMarked_append hhex hlen hmarked
  · rw [unmarked, Details.isMarked_behind_iff hhex hlen]
    simp

/-- Only the name of a tag on the tip itself may look like the version before the first commit. -/
lemma unmarked_eq_unspecified_iff {found : Option Tag × Nat} :
    unmarked p tip found = Details.unspecified ↔
      ∃ t, found = (some t, 0) ∧ p.strip t.name = Details.unspecified := by
  obtain ⟨_ | t, d⟩ := found
  · refine iff_of_false (Details.hash_ne_unspecified fun _ => ?_) (by simp)
    exact ObjectId.isDigit_of_mem_short
  · rw [unmarked, Details.behind_eq_unspecified_iff]
    simp

/-- The tag on the tip itself that is preferred among those with the prefix. -/
def NamesTip (h : History) (p : Prefix) (t : Tag) : Prop :=
  ∃ tip chain, h.head = some tip ∧ FirstParents h.parents? tip chain ∧
    IsNearest (h.tagged p.text) chain (some t, 0)

lemma NamesTip.start {t : Tag} (ht : h.NamesTip p t) : p.text.toList <+: t.name.toList := by
  obtain ⟨_, _, _, _, hnear⟩ := ht
  exact hnear.1.start

lemma namesTip_iff (hhead : h.head = some tip) (hchain : FirstParents h.parents? tip chain)
    {found : Option Tag × Nat} (hnear : IsNearest (h.tagged p.text) chain found) {t : Tag} :
    h.NamesTip p t ↔ found = (some t, 0) := by
  constructor
  · rintro ⟨tip', chain', hhead', hchain', hnear'⟩
    obtain rfl : tip = tip' := Option.some.inj (hhead.symm.trans hhead')
    obtain rfl := hchain.unique hchain'
    exact hnear.unique hnear'
  · rintro rfl
    exact ⟨tip, chain, hhead, hchain, hnear⟩

/-! ### Tags that look like marks -/

/-- A history of one commit with a tag of any name. -/
def released (name : String) : History := build {} [.commitHead, .lightweight name (idOf 1)]

lemma built_released (name : String) : (released name).Built := by
  have hcount : 1 < 2 ^ 32 := by decide
  exact Built.empty.build ⟨trivial, hcount, List.mem_singleton.mpr rfl, hcount, trivial⟩

/-- Any text becomes a version this way, less one `v`. -/
lemma resolve_released (name : String) :
    ((released name).repository.resolve .empty).outcome =
      .ok {
        version := Prefix.empty.strip name
        lastTag := some (Prefix.empty.strip name)
        commitDistance := 0
        hash := (idOf 1).short 10
        fullHash := (idOf 1).text
        branch := "main"
        isCleanTag := true } := rfl

/-- **What a mark tells.** Whatever questions fail, the version of a tip ends in the mark if the
work tree has changes, and otherwise just if the tag on the tip is named so. -/
theorem isMarked_version_iff (hb : h.Built) (hhead : h.head = some tip) (p : Prefix)
    (hok : (h.repository.resolve p).outcome = .ok details) :
    Details.IsMarked details.version ↔
      h.clean = false ∨ ∃ t front, h.NamesTip p t ∧ t.name = p.text ++ front ++ ".dirty" := by
  obtain ⟨chain, found, hchain, hnear, hversion⟩ := version_of_tip hb hhead hok
  rw [hversion, Details.isMarked_marked_iff, isMarked_unmarked_iff]
  refine or_congr_right (exists_congr fun t => ?_)
  rw [exists_and_left, ← namesTip_iff hhead hchain hnear]
  exact and_congr_right fun ht => Details.isMarked_strip_iff ht.start

theorem isMarked_version_released :
    let h := released "v1.dirty"
    h.Built ∧ h.head = some (idOf 1) ∧ h.clean = true ∧
      ∃ details, (h.repository.resolve .empty).outcome = .ok details ∧
        details.version = "1.dirty" ∧
        ∃ t front, h.NamesTip .empty t ∧ t.name = Prefix.empty.text ++ front ++ ".dirty" := by
  intro h
  have hb : h.Built := built_released _
  have hok := resolve_released "v1.dirty"
  have hmarked : Details.IsMarked (Prefix.empty.strip "v1.dirty") := by decide
  refine ⟨hb, rfl, rfl, _, hok, by decide, ?_⟩
  exact ((isMarked_version_iff hb rfl .empty hok).mp hmarked).resolve_left (by decide)

/-- The mark does not tell that the work tree has changes. -/
theorem not_forall_isMarked_version_iff :
    ¬ ∀ (h : History) (p : Prefix) (details : Details), h.Built → h.head.isSome = true →
      (h.repository.resolve p).outcome = .ok details →
      (Details.IsMarked details.version ↔ h.clean = false) := by
  intro hall
  have hmarked := hall (released "1.0.dirty") .empty _ (built_released _) rfl (resolve_released _)
  exact absurd (hmarked.mp (by decide)) (by decide)

/-- **When a version is unspecified.** Whatever questions fail, this is before the first commit, and
where the tag on the tip is named so and the work tree has no changes. -/
theorem version_eq_unspecified_iff (hb : h.Built) (p : Prefix)
    (hok : (h.repository.resolve p).outcome = .ok details) :
    details.version = "unspecified" ↔
      h.head = none ∨ h.clean = true ∧ ∃ t, h.NamesTip p t ∧ p.Leaves t.name "unspecified" := by
  cases hhead : h.head with
  | none => simp [version_of_unborn hhead hok, Details.unspecified]
  | some tip =>
    obtain ⟨chain, found, hchain, hnear, hversion⟩ := version_of_tip hb hhead hok
    rw [hversion]
    refine Details.marked_eq_unspecified_iff.trans ?_
    rw [unmarked_eq_unspecified_iff, or_iff_right (by simp)]
    refine and_congr_right fun _ => exists_congr fun t => ?_
    rw [← namesTip_iff hhead hchain hnear]
    exact and_congr_right fun ht => Prefix.strip_eq_iff ht.start

theorem version_eq_unspecified_released :
    let h := released "vunspecified"
    h.Built ∧ h.head = some (idOf 1) ∧
      ∃ details, (h.repository.resolve .empty).outcome = .ok details ∧
        details.version = "unspecified" ∧
        ∃ t, h.NamesTip .empty t ∧ Prefix.empty.Leaves t.name "unspecified" := by
  intro h
  have hb : h.Built := built_released _
  have hok := resolve_released "vunspecified"
  have hversion : Prefix.empty.strip "vunspecified" = "unspecified" := by decide
  refine ⟨hb, rfl, _, hok, hversion, ?_⟩
  have htag := (version_eq_unspecified_iff hb .empty hok).mp hversion
  exact (htag.resolve_left (by decide)).2

/-- A version that is unspecified does not tell that there is no commit. -/
theorem not_forall_version_eq_unspecified_iff :
    ¬ ∀ (h : History) (p : Prefix) (details : Details), h.Built →
      (h.repository.resolve p).outcome = .ok details →
      (details.version = "unspecified" ↔ h.head = none) := by
  intro hall
  have hunborn := hall (released "unspecified") .empty _ (built_released _) (resolve_released _)
  exact absurd (hunborn.mp (by decide)) (by decide)

end History

end TagVersion
