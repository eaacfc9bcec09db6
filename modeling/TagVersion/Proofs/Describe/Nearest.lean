import Mathlib.Data.List.TakeWhile
import Mathlib.Data.Set.Insert
import TagVersion.Proofs.Describe.Line
import TagVersion.Proofs.Describe.Plan
import TagVersion.Proofs.History.Built
import TagVersion.Proofs.Outcome

/-!
The nearest tag, told without any order among the tags: it sits on the first commit of the
first-parent chain that a tag sits on, and beats all others there. `describe_nearest` says that a
repository which answers every question is described by just that tag, as long as thirty-two bits
count the steps to it. Nothing in the reference depends on the order in which tags are listed, on
tags that lead to no commit, or on parents after the first, so neither does the description. At the
end stands a line of `2 ^ 32` steps, which are one too many.
-/

namespace TagVersion

open Reading

namespace Describe

/-- What is the nearest of some tags to the first commit of a chain, and how far off it is; or that
none of them sits on the chain, and how many steps the chain has. -/
def IsNearest (tags : Set Tag) (chain : List ObjectId) : Option Tag × Nat → Prop
  | (some t, d) =>
    t ∈ tags ∧ chain[d]? = some t.peeled ∧
      (∀ i < d, ∀ u ∈ tags, chain[i]? ≠ some u.peeled) ∧
      ∀ u ∈ tags, u.peeled = t.peeled → u ≠ t → t.Beats u
  | (none, d) => chain.length = d + 1 ∧ ∀ u ∈ tags, u.peeled ∉ chain

lemma IsNearest.unique {tags : Set Tag} {chain : List ObjectId} {x y : Option Tag × Nat}
    (hx : IsNearest tags chain x) (hy : IsNearest tags chain y) : x = y := by
  obtain ⟨_ | t, d⟩ := x <;> obtain ⟨_ | u, e⟩ := y
  · obtain ⟨hd, -⟩ := hx
    obtain ⟨he, -⟩ := hy
    have : d = e := by omega
    rw [this]
  · exact absurd (List.mem_of_getElem? hy.2.1) (hx.2 u hy.1)
  · exact absurd (List.mem_of_getElem? hx.2.1) (hy.2 t hx.1)
  · obtain ⟨ht, htd, htmin, htbest⟩ := hx
    obtain ⟨hu, hue, humin, hubest⟩ := hy
    have hde : d = e := by
      rcases Nat.lt_trichotomy d e with hlt | heq | hgt
      · exact absurd htd (humin d hlt t ht)
      · exact heq
      · exact absurd hue (htmin e hgt u hu)
    subst hde
    have hpeel : u.peeled = t.peeled := Option.some.inj (hue.symm.trans htd)
    by_cases htu : t = u
    · rw [htu]
    · exact absurd (hubest t ht hpeel.symm htu) (htbest u hu hpeel (Ne.symm htu)).asymm

lemma IsNearest.lt_length {tags : Set Tag} {chain : List ObjectId} {x : Option Tag × Nat}
    (h : IsNearest tags chain x) : x.2 < chain.length := by
  obtain ⟨_ | t, d⟩ := x
  · exact Nat.lt_of_succ_le h.1.ge
  · exact (List.getElem?_eq_some_iff.mp h.2.1).1

/-- Thirty-two bits suffice to count the steps to the nearest of some tags, or to the end of the
chain where none sits on it. -/
def IsCounted (tags : Set Tag) (chain : List ObjectId) : Prop :=
  ∀ found, IsNearest tags chain found → found.2 < 2 ^ 32

lemma isCounted_of_length_le {chain : List ObjectId} (h : chain.length ≤ 2 ^ 32)
    (tags : Set Tag) : IsCounted tags chain :=
  fun _ hfound => hfound.lt_length.trans_le h

/-- Behind a commit that carries no tag, the nearest is as far off as before and one step more. -/
lemma IsNearest.cons {tags : Set Tag} {chain : List ObjectId} {found : Option Tag} {d : Nat}
    (h : IsNearest tags chain (found, d)) {c : ObjectId} (hc : ∀ u ∈ tags, u.peeled ≠ c) :
    IsNearest tags (c :: chain) (found, d + 1) := by
  cases found with
  | none =>
    obtain ⟨hlen, hnone⟩ := h
    refine ⟨congrArg Nat.succ hlen, fun u hu hmem => ?_⟩
    rcases List.mem_cons.mp hmem with heq | hmem
    · exact hc u hu heq
    · exact hnone u hu hmem
  | some t =>
    obtain ⟨ht, hat, hbefore, hbest⟩ := h
    refine ⟨ht, hat, fun i hi u hu heq => ?_, hbest⟩
    cases i with
    | zero => exact hc u hu (Option.some.inj heq).symm
    | succ i => exact hbefore i (Nat.lt_of_succ_lt_succ hi) u hu heq

/-- A tag that sits on no commit up to the nearest one's, or there but is beaten, changes nothing. -/
lemma IsNearest.insert {tags : Set Tag} {chain : List ObjectId} {x : Option Tag × Nat}
    (h : IsNearest tags chain x) (hnodup : chain.Nodup) {u : Tag}
    (hu : u.peeled ∉ chain.take (x.2 + 1) ∨ ∃ t, x.1 = some t ∧ u.peeled = t.peeled ∧ t.Beats u) :
    IsNearest (insert u tags) chain x := by
  obtain ⟨_ | t, d⟩ := x
  · obtain ⟨hlen, hnone⟩ := h
    have hoff : u.peeled ∉ chain := by simpa [← hlen] using hu
    exact ⟨hlen, Set.forall_mem_insert.mpr ⟨hoff, hnone⟩⟩
  · obtain ⟨ht, hat, hbefore, hbest⟩ := h
    have hseen : ∀ i ≤ d, chain[i]? = some u.peeled → u.peeled ∈ chain.take (d + 1) :=
      fun i hi heq => List.mem_of_getElem? ((List.getElem?_take_of_lt (by omega)).trans heq)
    refine ⟨Set.mem_insert_of_mem u ht, hat, fun i hi => ?_, ?_⟩
    · refine Set.forall_mem_insert.mpr ⟨fun heq => ?_, hbefore i hi⟩
      rcases hu with hoff | ⟨_, ⟨⟩, hpeeled, -⟩
      · exact hoff (hseen i hi.le heq)
      · have hlt : d < chain.length := (List.getElem?_eq_some_iff.mp hat).1
        exact List.nodup_iff_getElem?_ne_getElem?.mp hnodup i d hi hlt
          (heq.trans (hpeeled ▸ hat.symm))
    · refine Set.forall_mem_insert.mpr ⟨fun hpeeled _ => ?_, hbest⟩
      rcases hu with hoff | ⟨_, ⟨⟩, -, hbeats⟩
      · exact absurd (hseen d le_rfl (hpeeled ▸ hat)) hoff
      · exact hbeats

namespace Facts

variable {f : Facts} {c : ObjectId} {chain : List ObjectId} {t : Tag}

/-- The tags with the prefix that lead to a commit. -/
def known (f : Facts) : Set Tag := {t | t ∈ f.candidates.map f.tagOf}

lemma tagOf_eq_iff {ref : TagRef} :
    f.tagOf (ref, t.peeled) = t ↔ t.name = ref.name ∧ t.target = ref.target ∧
      (t.annotated = true ↔ ref.target ≠ t.peeled) ∧
      t.time = if t.annotated then f.time ref else none := by
  constructor
  · intro h
    rw [← h]
    by_cases heq : ref.target = t.peeled <;> simp [tagOf, heq]
  · rintro ⟨hname, htarget, hann, htime⟩
    obtain ⟨name, target, peeled, annotated, time⟩ := t
    simp only at hname htarget hann htime
    subst hname htarget
    by_cases heq : ref.target = peeled
    · have hfalse : annotated = false := by simpa [heq] using hann
      simp [tagOf, heq, hfalse, htime]
    · have htrue : annotated = true := hann.mpr heq
      simp [tagOf, heq, htrue, htime]

lemma mem_known_iff : t ∈ f.known ↔ ∃ ref ∈ f.tags, f.lead ref = some t.peeled ∧
    t.name = ref.name ∧ t.target = ref.target ∧ (t.annotated = true ↔ ref.target ≠ t.peeled) ∧
    t.time = if t.annotated then f.time ref else none := by
  simp only [← tagOf_eq_iff, known, Set.mem_ofPred_eq, List.mem_map]
  constructor
  · rintro ⟨⟨ref, c⟩, hmem, rfl⟩
    obtain ⟨href, hlead⟩ := mem_candidates_iff.mp hmem
    exact ⟨ref, href, hlead, rfl⟩
  · rintro ⟨ref, href, hlead, heq⟩
    exact ⟨(ref, t.peeled), mem_candidates_iff.mpr ⟨href, hlead⟩, heq⟩

lemma mem_group_map_iff : t ∈ (f.group c).map f.tagOf ↔ t ∈ f.known ∧ t.peeled = c := by
  simp only [group, onCommit, known, List.mem_map, List.mem_filter, Set.mem_ofPred_eq,
    decide_eq_true_eq]
  constructor
  · rintro ⟨candidate, ⟨hmem, hpeel⟩, rfl⟩
    exact ⟨⟨candidate, hmem, rfl⟩, hpeel⟩
  · rintro ⟨⟨candidate, hmem, rfl⟩, hpeel⟩
    exact ⟨candidate, ⟨hmem, hpeel⟩, rfl⟩

lemma untagged_iff : f.untagged c = true ↔ ∀ t ∈ f.known, t.peeled ≠ c := by
  rw [untagged, List.isEmpty_iff, ← List.map_eq_nil_iff (f := f.tagOf), List.eq_nil_iff_forall_not_mem]
  simp only [mem_group_map_iff, not_and, ne_eq]

lemma map_fst_candidates_sublist (f : Facts) :
    (f.candidates.map Prod.fst).Sublist f.tags := by
  unfold candidates
  generalize f.tags = tags
  induction tags with
  | nil => exact List.Sublist.refl _
  | cons ref tags ih =>
    cases hlead : f.lead ref with
    | none =>
      rw [List.filterMap_cons_none (by simp [candidate, hlead])]
      exact ih.cons _
    | some c =>
      rw [List.filterMap_cons_some (show f.candidate ref = some (ref, c) by
        simp [candidate, hlead])]
      exact ih.cons_cons _

/-- Tags on one commit are named differently where all tags are. -/
lemma nodup_names_group (names : (f.tags.map TagRef.name).Nodup) (c : ObjectId) :
    (((f.group c).map f.tagOf).map Tag.name).Nodup := by
  have hsub : ((f.group c).map fun candidate => candidate.1.name).Sublist
      (f.tags.map TagRef.name) := by
    have h := ((List.filter_sublist (p := fun candidate : Candidate => candidate.2 = c)
      (l := f.candidates)).map Prod.fst).trans f.map_fst_candidates_sublist
    simpa [group, onCommit, Function.comp_def] using h.map TagRef.name
  simpa [tagOf, Function.comp_def] using names.sublist hsub

/-- **The walk finds the nearest tag.** -/
theorem isNearest_nearest (names : (f.tags.map TagRef.name).Nodup) (hne : chain ≠ []) :
    IsNearest f.known chain (f.nearest chain) := by
  have hsplit := (List.takeWhile_append_dropWhile (p := f.untagged) (l := chain)).symm
  unfold nearest
  cases hdrop : chain.dropWhile f.untagged with
  | nil =>
    have hlen := List.length_pos_iff.mpr hne
    refine ⟨by omega, fun u hu hmem => ?_⟩
    have hall := List.dropWhile_eq_nil_iff.mp hdrop
    exact untagged_iff.mp (hall _ hmem) u hu rfl
  | cons c rest =>
    have hc : f.untagged c = false := by
      have := List.head?_dropWhile_not f.untagged chain
      rw [hdrop] at this
      simpa using this
    have hgroup : (f.group c).map f.tagOf ≠ [] := by simpa [untagged] using hc
    obtain ⟨t, ht, hsel, hbest⟩ := Tag.select_beats hgroup (nodup_names_group names c)
    obtain ⟨hknown, hpeel⟩ := mem_group_map_iff.mp ht
    show IsNearest f.known chain (Tag.select ((f.group c).map f.tagOf), _)
    rw [hsel]
    rw [hdrop] at hsplit
    generalize hpre : chain.takeWhile f.untagged = pre at *
    refine ⟨hknown, ?_, fun i hi u hu heq => ?_, fun u hu hup hut => ?_⟩
    · rw [hsplit, hpeel]
      simp
    · rw [hsplit, List.getElem?_append_left hi] at heq
      have hmem : u.peeled ∈ chain.takeWhile f.untagged := hpre ▸ List.mem_of_getElem? heq
      exact untagged_iff.mp (List.mem_takeWhile_imp hmem) u hu rfl
    · exact hbest u (mem_group_map_iff.mpr ⟨hu, hup.trans hpeel⟩) hut

end Facts

end Describe

/-! ### Repositories that answer -/

namespace Repository

open Outcome Describe

/-- The parents of a commit, where the question for them is answered. -/
def parents? (r : Repository) (c : ObjectId) : Option (List ObjectId) := (r.parents c).toOption

/-- A repository that answers every question about its tip, about the tags `all`, which are named
differently, and about the first parents from the tip on, which come to an end. In which order it
lists the tags with a prefix is its own affair. -/
structure Answers (r : Repository) (all : List TagRef) : Prop where
  names : (all.map TagRef.name).Nodup
  head : ∃ tip, r.head = .ok tip
  tags : ∀ start : String, ∃ refs, r.tags start = .ok refs ∧
    refs.Perm (all.filter fun ref => start.toList.isPrefixOf ref.name.toList)
  peel : ∀ ref ∈ all, ∃ c, r.peel ref = .ok c
  tagger : ∀ ref ∈ all, ∃ time, r.tagger ref = .ok time
  ends : ∀ tip, r.head = .ok (some tip) → ∃ chain, FirstParents r.parents? tip chain

/-- All that a repository says of a tag that leads to a commit. It is annotated if it points at
something other than its commit, and only then has a time. -/
structure Leads (r : Repository) (ref : TagRef) (t : Tag) : Prop where
  name : t.name = ref.name
  target : t.target = ref.target
  peel : r.peel ref = .ok (some t.peeled)
  annotated : t.annotated = true ↔ ref.target ≠ t.peeled
  tagger : t.annotated = true → r.tagger ref = .ok t.time
  plain : t.annotated = false → t.time = none

/-- The tags among some whose name starts with a text and that lead to commits. -/
def tagged (r : Repository) (all : List TagRef) (start : String) : Set Tag :=
  {t | ∃ ref ∈ all, start.toList <+: ref.name.toList ∧ r.Leads ref t}

/-- What a description of a tip says: the tip in full and by its first seven digits, and the
nearest of some tags with the number of steps to it. -/
structure Describes (tags : Set Tag) (tip : ObjectId) (chain : List ObjectId) (d : Description) :
    Prop where
  head : d.head = tip
  shortHash : d.shortHash = String.ofList (tip.text.toList.take 7)
  nearest : ∃ found, IsNearest tags chain found ∧ d.tag = found.1.map Tag.name ∧
    d.distance.toNat = found.2

/-- Two repositories that differ at most in the order of their tags, in tags that lead to no
commit, and in parents after the first. -/
structure Alike (r r' : Repository) (all all' : List TagRef) : Prop where
  head : r'.head = r.head
  tags : ∀ ref c, ref ∈ all ∧ r.peel ref = .ok (some c) ↔ ref ∈ all' ∧ r'.peel ref = .ok (some c)
  tagger : ∀ ref ∈ all, ∀ c, r.peel ref = .ok (some c) → r'.tagger ref = r.tagger ref
  parents : ∀ c ps ps', r.parents c = .ok ps → r'.parents c = .ok ps' → ps'.head? = ps.head?

variable {r r' : Repository} {all all' : List TagRef} {start : String}

/-- The facts that a repository tells. -/
def facts (r : Repository) (tip : Option ObjectId) (refs : List TagRef) : Facts where
  head := tip
  tags := refs
  lead ref := (r.peel ref).toOption.join
  parents := r.parents?
  time ref := (r.tagger ref).toOption.join

lemma tells_facts {tip : Option ObjectId} {refs : List TagRef} (h : r.Answers all)
    (hhead : r.head = .ok tip) (htags : r.tags start = .ok refs) (hsub : refs ⊆ all) :
    Tells (fun _ => none) r start (r.facts tip refs) where
  head := by rw [verdict_never, hhead, facts]
  tags := by rw [verdict_never, htags, facts]
  peel ref href := by
    obtain ⟨c, hc⟩ := h.peel ref (hsub href)
    simp [facts, hc, Except.toOption]
  parents c ps hc := by rw [verdict_never, toOption_eq_some_iff.mp hc]
  tagger ref href := by
    obtain ⟨time, htime⟩ := h.tagger ref (hsub href)
    simp [facts, htime, Except.toOption]
  commits c ps hc := r.mem_commits c ps (toOption_eq_some_iff.mp hc)

lemma lead_facts_eq_some_iff {tip : Option ObjectId} {refs : List TagRef} {ref : TagRef}
    {c : ObjectId} : (r.facts tip refs).lead ref = some c ↔ r.peel ref = .ok (some c) := by
  show (r.peel ref).toOption.join = some c ↔ _
  rw [Option.join_eq_some_iff, toOption_eq_some_iff]

lemma mem_known_facts_iff {tip : Option ObjectId} {refs : List TagRef} {t : Tag}
    (htagger : ∀ ref ∈ refs, ∃ time, r.tagger ref = .ok time) :
    t ∈ (r.facts tip refs).known ↔ ∃ ref ∈ refs, r.Leads ref t := by
  rw [Facts.mem_known_iff]
  refine exists_congr fun ref => and_congr_right fun href => ?_
  obtain ⟨time, htime⟩ := htagger ref href
  have hfact : (r.facts tip refs).time ref = time := by simp [facts, htime, Except.toOption]
  rw [hfact, lead_facts_eq_some_iff]
  constructor
  · rintro ⟨hpeel, hname, htarget, hann, ht⟩
    refine ⟨hname, htarget, hpeel, hann, fun htrue => ?_, fun hfalse => ?_⟩
    · rw [htime, ht, if_pos htrue]
    · rw [ht, if_neg (by simp [hfalse])]
  · rintro ⟨hname, htarget, hpeel, hann, htrue, hfalse⟩
    refine ⟨hpeel, hname, htarget, hann, ?_⟩
    cases h : t.annotated with
    | true => exact (Except.ok.inj (htime.symm.trans (htrue h))).symm
    | false => exact hfalse h

lemma known_facts {tip : Option ObjectId} {refs : List TagRef} (h : r.Answers all)
    (hperm : refs.Perm (all.filter fun ref => start.toList.isPrefixOf ref.name.toList)) :
    (r.facts tip refs).known = r.tagged all start := by
  ext t
  have hmem : ∀ ref, ref ∈ refs ↔ ref ∈ all ∧ start.toList <+: ref.name.toList := by
    intro ref
    rw [hperm.mem_iff, List.mem_filter, List.isPrefixOf_iff_prefix]
  rw [mem_known_facts_iff fun ref href => h.tagger ref ((hmem ref).mp href).1]
  simp only [hmem, and_assoc]
  rfl

lemma Describes.unique {tags : Set Tag} {tip : ObjectId} {chain : List ObjectId}
    {d d' : Description} (h : Describes tags tip chain d) (h' : Describes tags tip chain d') :
    d = d' := by
  obtain ⟨hhead, hshort, found, hfound, htag, hdist⟩ := h
  obtain ⟨hhead', hshort', found', hfound', htag', hdist'⟩ := h'
  obtain rfl := hfound.unique hfound'
  have hcount : d.distance = d'.distance := UInt32.toNat_inj.mp (hdist.trans hdist'.symm)
  cases d
  cases d'
  simp_all

lemma describes_describedBy {tags : Set Tag} {chain : List ObjectId} {found : Option Tag × Nat}
    (h : IsNearest tags chain found) (hlt : found.2 < 2 ^ 32) (tip : ObjectId) :
    Describes tags tip chain (describedBy tip found) :=
  ⟨rfl, rfl, found, h, rfl, toNat_distance_describedBy hlt tip⟩

lemma describe_of_tip (h : r.Answers all) {tip : ObjectId} {chain : List ObjectId}
    (hhead : r.head = .ok (some tip)) (hchain : FirstParents r.parents? tip chain)
    (start : String) : ∃ found, IsNearest (r.tagged all start) chain found ∧
      (r.describe start).outcome = .ok (some (describedBy tip found)) := by
  obtain ⟨refs, htags, hperm⟩ := h.tags start
  have hsub : refs ⊆ all := fun ref href => List.mem_of_mem_filter (hperm.mem_iff.mp href)
  have hnames : (refs.map TagRef.name).Nodup := by
    rw [(hperm.map TagRef.name).nodup_iff]
    exact (List.Sublist.map TagRef.name List.filter_sublist).nodup h.names
  have hends : ∀ tip', (r.facts (some tip) refs).head = some tip' →
      FirstParents (r.facts (some tip) refs).parents tip' chain := by
    rintro _ ⟨⟩
    exact hchain
  have hruns := runs_describe (tells_facts h hhead htags hsub) hends
  have hnear := Facts.isNearest_nearest (f := r.facts (some tip) refs) hnames hchain.ne_nil
  rw [known_facts h hperm] at hnear
  exact ⟨_, hnear, (hruns.of_never (by simp)).2⟩

lemma describe_of_no_tip (hhead : r.head = .ok none) (start : String) :
    (r.describe start).outcome = .ok none := by
  simp only [describe, outcome_bind, askHead, ask, hhead]
  rfl

lemma tagged_eq_of_alike (halike : Alike r r' all all') (start : String) :
    r'.tagged all' start = r.tagged all start := by
  ext t
  constructor
  · rintro ⟨ref, href, hstart, hleads⟩
    obtain ⟨href, hpeel⟩ := (halike.tags ref t.peeled).mpr ⟨href, hleads.peel⟩
    have htagger := halike.tagger ref href _ hpeel
    exact ⟨ref, href, hstart, hleads.name, hleads.target, hpeel, hleads.annotated,
      fun hann => htagger ▸ hleads.tagger hann, hleads.plain⟩
  · rintro ⟨ref, href, hstart, hleads⟩
    have htagger := halike.tagger ref href _ hleads.peel
    obtain ⟨href, hpeel⟩ := (halike.tags ref t.peeled).mp ⟨href, hleads.peel⟩
    exact ⟨ref, href, hstart, hleads.name, hleads.target, hpeel, hleads.annotated,
      fun hann => htagger ▸ hleads.tagger hann, hleads.plain⟩

lemma chain_eq_of_alike (halike : Alike r r' all all') {tip : ObjectId}
    {chain chain' : List ObjectId} (hchain : FirstParents r.parents? tip chain)
    (hchain' : FirstParents r'.parents? tip chain') : chain' = chain := by
  have hfirst : ∀ c ps ps', r.parents? c = some ps → r'.parents? c = some ps' →
      ps'.head? = ps.head? := fun c ps ps' hps hps' =>
    halike.parents c ps ps' (toOption_eq_some_iff.mp hps) (toOption_eq_some_iff.mp hps')
  induction hchain generalizing chain' with
  | last hc =>
    cases hchain' with
    | last => rfl
    | step hc' => simpa using hfirst _ _ _ hc hc'
  | step hc _ ih =>
    cases hchain' with
    | last hc' => simpa using hfirst _ _ _ hc hc'
    | step hc' hp' =>
      obtain rfl : _ = _ := by simpa using hfirst _ _ _ hc hc'
      rw [ih hp']

/-- A coherent history in which nothing fails answers every question. -/
lemma answers_history {h : History} (hc : h.Coherent) (hfail : h.failures = []) :
    h.repository.Answers (h.tags.map fun named => ⟨named.1, named.2⟩) := by
  have hanswer : ∀ {α : Type} kind (a : Except Failure α), h.answer kind a = a := by
    intro α kind a
    simp [History.answer, hfail]
  refine ⟨?_, ⟨_, hanswer _ _⟩, fun start => ⟨_, hanswer _ _, ?_⟩, fun ref _ => ⟨_, hanswer _ _⟩,
    fun ref _ => ⟨_, hanswer _ _⟩, fun tip htip => ?_⟩
  · simpa [Function.comp_def] using hc.nodup_names
  · rw [List.filter_map]
    exact List.Perm.refl _
  · have hparents : h.repository.parents? = h.parents? := by
      funext c
      show (h.answer .parents (h.parents c)).toOption = h.commits.lookup c
      rw [hanswer, History.parents]
      cases h.commits.lookup c <;> rfl
    rw [hparents]
    exact hc.firstParents (by simpa [History.repository, hanswer] using htip)

/-- **The nearest tag describes the tip.** A repository that answers every question is described by
the nearest tag of those with the prefix, and by nothing else, if the steps can be counted; before
the first commit there is no description. The order of the tags, tags that lead to no commit and
parents after the first make no difference. -/
theorem describe_nearest (h : r.Answers all) (start : String) :
    ((r.describe start).outcome = .ok none ↔ r.head = .ok none) ∧
    (∀ tip chain, r.head = .ok (some tip) → FirstParents r.parents? tip chain →
      IsCounted (r.tagged all start) chain →
      ∃ d, (r.describe start).outcome = .ok (some d) ∧
        ∀ d', Describes (r.tagged all start) tip chain d' ↔ d' = d) ∧
    ∀ r' all', r'.Answers all' → Alike r r' all all' →
      (r'.describe start).outcome = (r.describe start).outcome := by
  refine ⟨⟨fun hnone => ?_, fun hhead => describe_of_no_tip hhead start⟩, ?_, ?_⟩
  · obtain ⟨_ | tip, hhead⟩ := h.head
    · exact hhead
    · obtain ⟨chain, hchain⟩ := h.ends tip hhead
      obtain ⟨found, -, hout⟩ := describe_of_tip h hhead hchain start
      simp [hout] at hnone
  · intro tip chain hhead hchain hcounted
    obtain ⟨found, hfound, hout⟩ := describe_of_tip h hhead hchain start
    have hdesc := describes_describedBy hfound (hcounted found hfound) tip
    exact ⟨_, hout, fun d' => ⟨fun hdesc' => hdesc'.unique hdesc, fun heq => heq ▸ hdesc⟩⟩
  · intro r' all' h' halike
    obtain ⟨_ | tip, hhead⟩ := h.head
    · rw [describe_of_no_tip hhead, describe_of_no_tip (halike.head.trans hhead)]
    · have hhead' := halike.head.trans hhead
      obtain ⟨chain, hchain⟩ := h.ends tip hhead
      obtain ⟨chain', hchain'⟩ := h'.ends tip hhead'
      obtain ⟨found, hfound, hout⟩ := describe_of_tip h hhead hchain start
      obtain ⟨found', hfound', hout'⟩ := describe_of_tip h' hhead' hchain' start
      rw [tagged_eq_of_alike halike, chain_eq_of_alike halike hchain hchain'] at hfound'
      rw [hout, hout', hfound'.unique hfound]

theorem describe_nearest_merged :
    let r := History.merged.repository
    let all := History.merged.tags.map fun named => ⟨named.1, named.2⟩
    r.Answers all ∧
      Describes (r.tagged all "v") (History.idOf 5) [History.idOf 5, History.idOf 1]
        ⟨some "v0", 1, "1715609", History.idOf 5⟩ := by
  have hanswers := answers_history History.built_merged.coherent rfl
  obtain ⟨d, hd, hdesc⟩ := (describe_nearest hanswers "v").2.1 _ _ rfl (.step rfl (.last rfl))
    (isCounted_of_length_le (by decide) _)
  have hvalue : (History.merged.repository.describe "v").outcome =
      .ok (some ⟨some "v0", 1, "1715609", History.idOf 5⟩) := rfl
  rw [hvalue] at hd
  cases hd
  exact ⟨hanswers, (hdesc _).mpr rfl⟩

/-! ### More steps than can be counted -/

variable {n : Nat}

lemma firstParents_line (hn : n < 16 ^ 40) :
    FirstParents (Line.repository n).parents? (ObjectId.ofNumber n) (Line.chain n) :=
  Line.firstParents le_rfl hn

lemma answers_line (hn : n < 16 ^ 40) : (Line.repository n).Answers [Line.tag n] where
  names := List.nodup_singleton _
  head := ⟨_, rfl⟩
  tags _ := ⟨_, rfl, List.Perm.refl _⟩
  peel _ _ := ⟨_, rfl⟩
  tagger _ _ := ⟨_, rfl⟩
  ends tip htip := by
    obtain rfl : ObjectId.ofNumber n = tip := Option.some.inj (Except.ok.inj htip)
    exact ⟨_, firstParents_line hn⟩

lemma describe_line (hn : n < 16 ^ 40) {found : Option Tag × Nat}
    (hfound : IsNearest ((Line.repository n).tagged [Line.tag n] start) (Line.chain n) found) :
    ((Line.repository n).describe start).outcome =
      .ok (some (describedBy (ObjectId.ofNumber n) found)) := by
  obtain ⟨found', hfound', hout⟩ :=
    describe_of_tip (answers_line hn) rfl (firstParents_line hn) start
  rw [hout, hfound'.unique hfound]

/-- Against tags that a line does not have, all of its steps count. -/
lemma isNearest_line_none (n : Nat) :
    IsNearest ((Line.repository n).tagged [Line.tag n] "q") (Line.chain n) (none, n) := by
  refine ⟨Line.length_chain n, ?_⟩
  rintro t ⟨ref, href, hstart, -⟩
  obtain rfl := List.mem_singleton.mp href
  exact absurd hstart (by simp [Line.tag])

/-- Where the line is one step longer than a distance can tell, it is described as having none. -/
theorem not_describe_nearest_beyond :
    let r := Line.repository (2 ^ 32)
    let all := [Line.tag (2 ^ 32)]
    let tip := ObjectId.ofNumber (2 ^ 32)
    let chain := Line.chain (2 ^ 32)
    r.Answers all ∧ r.head = .ok (some tip) ∧ FirstParents r.parents? tip chain ∧
      IsNearest (r.tagged all "q") chain (none, 2 ^ 32) ∧
      ∃ d, (r.describe "q").outcome = .ok (some d) ∧ d.distance = 0 ∧
        ¬ Describes (r.tagged all "q") tip chain d := by
  intro r all tip chain
  have hn : 2 ^ 32 < 16 ^ 40 := by simp
  have hnear := isNearest_line_none (2 ^ 32)
  refine ⟨answers_line hn, rfl, firstParents_line hn, hnear, _, describe_line hn hnear, ?_, ?_⟩
  · decide
  · rintro ⟨-, -, found, hfound, -, hdistance⟩
    obtain rfl := hfound.unique hnear
    exact absurd hdistance (by decide)

end Repository

end TagVersion
