import TagVersion.Proofs.Describe.Nearest
import TagVersion.Proofs.Details
import TagVersion.Proofs.ObjectId
import TagVersion.Proofs.Resolve.Plan

/-!
The version of a history. Where nothing fails, the details of a history are told by its nearest tag
alone, though on the way the tag is written into a description, stripped of the prefix, and read
back from there.
-/

namespace TagVersion.History

open Reading Describe

/-- All that a history holds of a tag that leads to a commit and whose name starts with a text. -/
structure Tagged (h : History) (start : String) (t : Tag) : Prop where
  named : (t.name, t.target) ∈ h.tags
  start : start.toList <+: t.name.toList
  peel : h.peel t.target = some t.peeled
  annotated : t.annotated = true ↔ t.target ≠ t.peeled
  time : t.time = if t.annotated then (h.tagObjects.lookup t.target).bind (·.2) else none

/-- The tags of a history that lead to commits and whose names start with a text. -/
def tagged (h : History) (start : String) : Set Tag := {t | h.Tagged start t}

variable {h : History} {start : String} {tip : ObjectId} {chain : List ObjectId} {p : Prefix}

lemma mem_known_facts_iff {t : Tag} : t ∈ (h.facts start).known ↔ h.Tagged start t := by
  rw [Facts.mem_known_iff]
  constructor
  · rintro ⟨ref, href, hpeel, hname, htarget, hannotated, htime⟩
    obtain ⟨hnamed, hstart⟩ := mem_refs_iff.mp href
    rw [← hname] at hstart
    rw [← hname, ← htarget] at hnamed
    exact ⟨hnamed, hstart, htarget ▸ hpeel, htarget ▸ hannotated, htarget ▸ htime⟩
  · rintro ⟨hnamed, hstart, hpeel, hannotated, htime⟩
    exact ⟨⟨t.name, t.target⟩, mem_refs_iff.mpr ⟨hnamed, hstart⟩, hpeel, rfl, rfl, hannotated,
      htime⟩

lemma nodup_names_facts (hc : h.Coherent) (start : String) :
    ((h.facts start).tags.map TagRef.name).Nodup := by
  have hmap : (h.facts start).tags.map TagRef.name =
      (h.tags.filter fun named => start.toList.isPrefixOf named.1.toList).map Prod.fst := by
    simp [facts, refs, Function.comp_def]
  rw [hmap]
  exact (List.filter_sublist.map Prod.fst).nodup hc.nodup_names

lemma isNearest_facts (hc : h.Coherent) (hne : chain ≠ []) (start : String) :
    IsNearest (h.tagged start) chain ((h.facts start).nearest chain) := by
  have hknown : (h.facts start).known = h.tagged start := by
    ext t
    exact mem_known_facts_iff
  rw [← hknown]
  exact Facts.isNearest_nearest (nodup_names_facts hc start) hne

/-- A chain has fewer commits than there are ids. -/
lemma length_lt (hb : h.Built) (hchain : FirstParents h.parents? tip chain) :
    chain.length < Description.distanceBound := by
  have hle : chain.length ≤ h.ids.length :=
    hchain.length_le fun c ps hps => mem_map_fst_of_lookup hps
  have hsize := hb.coherent.size
  have hmade := hb.made_lt
  rw [ids, List.length_map] at hle
  have hbound : Description.distanceBound = 2 ^ 32 := rfl
  omega

/-- What resolving comes to where nothing fails. -/
lemma outcome_resolve (hfail : h.failures = []) (hhead : h.head = some tip)
    (hchain : FirstParents h.parents? tip chain) (p : Prefix) {found : Option Tag × Nat}
    (hfound : (h.facts p.text).nearest chain = found) :
    (h.repository.resolve p).outcome = (Details.named p (describedBy tip found)).map
      (Details.ofNamed (describedBy tip found) h.clean h.branch) := by
  have hends : ∀ tip', h.head = some tip' → FirstParents h.parents? tip' chain := by
    intro tip' htip'
    rw [hhead] at htip'
    obtain rfl := Option.some.inj htip'
    exact hchain
  have hnever : ((h.facts p.text).resolvePlan p.text chain).findSome?
      (fun q => (h.injected q.kind).map VersionError.repository) = none := by
    simp [injected, hfail]
  rw [((runs_resolve p hends).of_never hnever).2, Facts.description, head_facts, hhead, hfound,
    Option.map_some, Details.ofDescription_some]
  rfl

/-- Before the first commit only the question for the tip matters. -/
lemma resolve_of_unborn (hfail : h.failures = []) (hhead : h.head = none) (p : Prefix) :
    (h.repository.resolve p).outcome = Details.ofDescription p none false "" := by
  have hends : ∀ tip, h.head = some tip → FirstParents h.parents? tip [] := by simp [hhead]
  have hnever : ((h.facts p.text).resolvePlan p.text []).findSome?
      (fun q => (h.injected q.kind).map VersionError.repository) = none := by
    simp [injected, hfail]
  rw [((runs_resolve p hends).of_never hnever).2, Facts.description, head_facts, hhead]
  rfl

/-- The details of a tip by what is nearest to it. -/
def detailsBy (h : History) (p : Prefix) (tip : ObjectId) : Option Tag × Nat → Details
  | (some t, d) => Details.ofNamed (describedBy tip (some t, d)) h.clean h.branch
      (p.strip t.name ++ Details.behind d (tip.short 7), some (p.strip t.name), d)
  | (none, d) => Details.ofNamed (describedBy tip (none, d)) h.clean h.branch
      (tip.short 7, none, 0)

/-- What a description by a tag says can be read back from it. -/
lemma named_describedBy {t : Tag} {d : Nat} (ht : h.Tagged p.text t)
    (hfeed : '\n' ∉ t.name.toList) (hlt : d < 2 ^ 32) :
    Details.named p (describedBy tip (some t, d)) =
      .ok (p.strip t.name ++ Details.behind d (tip.short 7), some (p.strip t.name), d) := by
  have hlen : 3 ≤ (tip.short 7).toList.length := by
    rw [tip.length_short (by decide)]
    decide
  have hhex : ∀ c ∈ (tip.short 7).toList, Hex.isDigit c = true :=
    fun c => ObjectId.isDigit_of_mem_short
  have hnamed : Details.named p (describedBy tip (some t, d)) = _ :=
    Details.named_of_tag rfl ht.start hfeed hhex hlen
  rw [toNat_distance_describedBy hlt] at hnamed
  exact hnamed

/-- Where no name holds a line feed, what is nearest is all that has to be known. -/
lemma resolve_of_nearest (hb : h.Built) (hfail : h.failures = []) (hhead : h.head = some tip)
    (hfeed : ∀ named ∈ h.tags, '\n' ∉ named.1.toList)
    (hchain : FirstParents h.parents? tip chain) {found : Option Tag × Nat}
    (hnear : IsNearest (h.tagged p.text) chain found) :
    (h.repository.resolve p).outcome = .ok (h.detailsBy p tip found) := by
  have hfound : (h.facts p.text).nearest chain = found :=
    (isNearest_facts hb.coherent hchain.ne_nil p.text).unique hnear
  rw [outcome_resolve hfail hhead hchain p hfound]
  obtain ⟨_ | t, d⟩ := found
  · rw [Details.named_of_no_tag rfl]
    rfl
  · have hlt : d < 2 ^ 32 := Nat.lt_trans hnear.lt_length (length_lt hb hchain)
    obtain ⟨ht, -, -, -⟩ := hnear
    rw [named_describedBy ht (hfeed _ ht.named) hlt]
    rfl

/-- **The version of a history is told by its nearest tag.** Where a tag with the prefix leads to a
commit of the chain, the last tag is what the prefix leaves of the nearest one's name, the distance
is that of its commit, and the version is made of both and of the tip's first digits. Where none
does, the tip's first digits stand alone. Changes in the work tree are marked at the end. -/
theorem resolve_version (hb : h.Built) (hfail : h.failures = []) (hhead : h.head = some tip)
    (hfeed : ∀ named ∈ h.tags, '\n' ∉ named.1.toList) (p : Prefix) :
    ∃ chain details, FirstParents h.parents? tip chain ∧
      (h.repository.resolve p).outcome = .ok details ∧
      ((∃ t ∈ h.tagged p.text, t.peeled ∈ chain) → ∃ t d last,
        IsNearest (h.tagged p.text) chain (some t, d) ∧ p.Leaves t.name last ∧
        details.lastTag = some last ∧ details.commitDistance = d ∧
        details.version = last ++ (if d = 0 then "" else "-" ++ toString d ++ "-g" ++ tip.short 7)
          ++ (if h.clean then "" else ".dirty") ∧
        (details.isCleanTag = true ↔ h.clean = true ∧ d = 0)) ∧
      ((∀ t ∈ h.tagged p.text, t.peeled ∉ chain) →
        details.lastTag = none ∧ details.commitDistance = 0 ∧
        details.version = tip.short 7 ++ (if h.clean then "" else ".dirty") ∧
        details.isCleanTag = false) ∧
      details.hash = tip.short 10 ∧ details.fullHash = tip.text ∧ details.branch = h.branch := by
  obtain ⟨chain, hchain⟩ := hb.coherent.firstParents hhead
  have hnear := isNearest_facts hb.coherent hchain.ne_nil p.text
  have hmarked := Details.marked_eq h.clean
  have houtcome := resolve_of_nearest hb hfail hhead hfeed hchain hnear
  generalize (h.facts p.text).nearest chain = found at hnear houtcome
  obtain ⟨_ | t, d⟩ := found
  · refine ⟨chain, _, hchain, houtcome, ?_, ?_, rfl, rfl, rfl⟩
    · rintro ⟨t, ht, hmem⟩
      exact absurd hmem (hnear.2 t ht)
    · intro _
      exact ⟨rfl, rfl, hmarked _, by simp [detailsBy, Details.ofNamed]⟩
  · have ht : t ∈ h.tagged p.text := hnear.1
    have htd : chain[d]? = some t.peeled := hnear.2.1
    refine ⟨chain, _, hchain, houtcome, ?_, ?_, rfl, rfl, rfl⟩
    · intro _
      refine ⟨t, d, p.strip t.name, hnear, Prefix.leaves_strip ht.start, rfl, rfl, ?_, ?_⟩
      · exact hmarked _
      · simp [detailsBy, Details.ofNamed]
    · intro hnone
      exact absurd (List.mem_of_getElem? htd) (hnone t ht)

theorem resolve_version_merged :
    let h := merged.apply (.setClean false)
    h.Built ∧ h.failures = [] ∧ h.head = some (idOf 5) ∧
      (∀ named ∈ h.tags, '\n' ∉ named.1.toList) ∧
      ∃ t, IsNearest (h.tagged "") [idOf 5, idOf 1] (some t, 1) ∧ Prefix.empty.Leaves t.name "0" ∧
        ∃ details, (h.repository.resolve .empty).outcome = .ok details ∧
          details.version = "0-1-g1715609.dirty" := by
  intro h
  have hbuilt : h.Built := built_merged.step trivial (by decide)
  have hfeed : ∀ named ∈ h.tags, '\n' ∉ named.1.toList := by decide
  refine ⟨hbuilt, rfl, rfl, hfeed, ?_⟩
  obtain ⟨chain, details, hchain, houtcome, htag, -⟩ :=
    resolve_version hbuilt rfl (show h.head = some (idOf 5) from rfl) hfeed .empty
  have hparents : h.parents? (idOf 5) = some [idOf 1, idOf 3] := by decide
  have hchain' : FirstParents h.parents? (idOf 5) [idOf 5, idOf 1] :=
    .step hparents (.last (by decide))
  obtain rfl := hchain.unique hchain'
  have htagged : h.Tagged "" ⟨"v1", idOf 1, idOf 1, false, none⟩ :=
    ⟨by decide, List.nil_prefix, by decide, by simp, rfl⟩
  obtain ⟨t, d, last, hnear, hleaves, hlast, hdistance, -, -⟩ := htag ⟨_, htagged, .tail _ (.head _)⟩
  have hvalue : ((h.repository.resolve .empty).outcome.toOption.map fun details =>
      (details.lastTag, details.commitDistance, details.version)) =
      some (some "0", 1, "0-1-g1715609.dirty") := by decide
  rw [houtcome] at hvalue
  obtain ⟨hlast', hdistance', hversion⟩ : details.lastTag = some "0" ∧
      details.commitDistance = 1 ∧ details.version = "0-1-g1715609.dirty" := by
    simpa [Except.toOption] using hvalue
  obtain rfl : last = "0" := Option.some.inj (hlast.symm.trans hlast')
  obtain rfl : d = 1 := hdistance.symm.trans hdistance'
  exact ⟨t, hnear, hleaves, details, houtcome, hversion⟩

end TagVersion.History
