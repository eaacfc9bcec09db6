import TagVersion.Proofs.Resolve.Steps

/-!
A history that grows at its tip. Each new commit has the old tip for its first parent, and no tag
points at it. So the nearest tag stays the nearest, one commit farther off with each step, and where
there was none a merge brings none in.
-/

namespace TagVersion.History

open Describe

/-- Whether a step makes a commit on the tip and moves the tip to it. -/
def Step.Advances : Step → Prop
  | .commitHead | .mergeHead _ => True
  | _ => False

instance : ∀ s : Step, Decidable s.Advances
  | .commitHead | .mergeHead _ => inferInstanceAs (Decidable True)
  | .commit _ | .setHead _ | .checkout _ | .setBranch _ | .setClean _ | .lightweight _ _
  | .annotated _ _ _ | .nonCommit _ | .failOn _ _ => inferInstanceAs (Decidable False)

/-- The other history has a number of ids more, and else differs in its commits and its tip only. -/
structure Outgrows (h' h : History) (more : Nat) : Prop where
  tags : h'.tags = h.tags
  failures : h'.failures = h.failures
  branch : h'.branch = h.branch
  clean : h'.clean = h.clean
  made : h'.made = h.made + more

variable {h : History} {s : Step} {steps : List Step} {start : String} {tip : ObjectId}
  {chain : List ObjectId} {found : Option Tag} {d : Nat}

lemma outgrows_apply (hs : s.Advances) : Outgrows (h.apply s) h 1 := by
  cases s with
  | commitHead | mergeHead => exact ⟨rfl, rfl, rfl, rfl, rfl⟩
  | _ => exact hs.elim

lemma outgrows_build (hsteps : ∀ s ∈ steps, s.Advances) :
    Outgrows (h.build steps) h steps.length := by
  induction steps generalizing h with
  | nil => exact ⟨rfl, rfl, rfl, rfl, rfl⟩
  | cons s steps ih =>
    obtain ⟨hs, hsteps⟩ := List.forall_mem_cons.mp hsteps
    have hone := outgrows_apply (h := h) hs
    have hrest := ih (h := h.apply s) hsteps
    refine ⟨hrest.tags.trans hone.tags, hrest.failures.trans hone.failures,
      hrest.branch.trans hone.branch, hrest.clean.trans hone.clean, ?_⟩
    have hmade := hrest.made
    rw [hone.made] at hmade
    rw [List.length_cons]
    show ((h.apply s).build steps).made = _
    omega

lemma head_apply (hs : s.Advances) : (h.apply s).head = some h.fresh := by
  cases s with
  | commitHead | mergeHead => rfl
  | _ => exact hs.elim

/-- The tip is the commit that was made last. -/
lemma head_build (hsteps : ∀ s ∈ steps, s.Advances) (hne : steps ≠ []) :
    (h.build steps).head = some (idOf (h.made + steps.length)) := by
  obtain ⟨init, last, rfl⟩ := (List.eq_nil_or_concat' steps).resolve_left hne
  obtain ⟨hinit, hlast⟩ := List.forall_mem_append.mp hsteps
  have hmade := (outgrows_build (h := h) hinit).made
  have hhead := head_apply (h := h.build init) (hlast last (.head _))
  rw [fresh, hmade] at hhead
  rw [build, List.foldl_append, List.length_append]
  exact hhead

/-- The old tip comes first among the parents of the new one. -/
lemma parents?_fresh (hs : s.Advances) (hhead : h.head = some tip) :
    ∃ others, (h.apply s).parents? h.fresh = some (tip :: others) := by
  cases s with
  | commitHead => exact ⟨[], by simp [apply, addCommit, parents?, hhead]⟩
  | mergeHead other => exact ⟨[other], by simp [apply, addCommit, parents?, hhead]⟩
  | _ => exact hs.elim

lemma tagged_advance (hb : h.Built) (hs : s.Advances) (hallowed : s.Allowed h)
    (hlt : (h.apply s).made < 2 ^ 32) : (h.apply s).tagged start = h.tagged start := by
  have hentry : s.added? h = none := by
    cases s with
    | commitHead | mergeHead => rfl
    | _ => exact hs.elim
  exact tagged_apply_of_not hb hallowed hlt (by simp [Step.Unused, hentry])
    (by simp [tag?_eq_none hentry])

/-- **One step** puts the new commit in front, and nothing sits on it. -/
lemma Walks.advance (hw : h.Walks start tip chain (found, d)) (hb : h.Built) (hs : s.Advances)
    (hallowed : s.Allowed h) (hlt : (h.apply s).made < 2 ^ 32) :
    (h.apply s).Walks start h.fresh (h.fresh :: chain) (found, d + 1) where
  head := head_apply hs
  parents := by
    obtain ⟨others, hparents⟩ := parents?_fresh hs hw.head
    exact .step hparents (firstParents_apply hb.coherent hlt hw.parents)
  nearest := by
    rw [tagged_advance hb hs hallowed hlt]
    -- a tag on the new commit would point at an id that had not been made
    refine hw.nearest.cons fun u hu heq => ?_
    have hmem := hb.anchored.mem_ids_of_peel hu.peel
    have hmade : h.made + 1 < 2 ^ 32 := (outgrows_apply (h := h) hs).made ▸ hlt
    exact hb.coherent.fresh_notMem hmade (heq ▸ hmem)

/-- **Many steps**, each from the history that the one before it leaves. -/
theorem Walks.advances (hw : h.Walks start tip chain (found, d)) (hb : h.Built)
    (hsteps : ∀ s ∈ steps, s.Advances) (hadmits : h.Admits steps) :
    ∃ tip' chain', (h.build steps).Walks start tip' chain' (found, d + steps.length) := by
  -- each step starts a longer chain from another tip; the tag that was found stays fixed
  induction steps generalizing h tip chain d with
  | nil => exact ⟨tip, chain, hw⟩
  | cons s steps ih =>
    obtain ⟨hs, hsteps⟩ := List.forall_mem_cons.mp hsteps
    obtain ⟨hallowed, hlt, hrest⟩ := hadmits
    obtain ⟨tip', chain', hw'⟩ :=
      ih (hw.advance hb hs hallowed hlt) (hb.step hallowed hlt) hsteps hrest
    rw [Nat.add_right_comm, Nat.add_assoc] at hw'
    exact ⟨tip', chain', hw'⟩

/-- **Commits on the tip lengthen the distance by as many.** Whatever is merged in on the way, the
last tag stays the last tag, and a history without one stays without. -/
theorem resolve_advanced (hb : h.Built) (hfail : h.failures = []) (hhead : h.head = some tip)
    (hfeed : ∀ named ∈ h.tags, '\n' ∉ named.1.toList) (p : Prefix) (hne : steps ≠ [])
    (hsteps : ∀ s ∈ steps, s.Advances) (hadmits : h.Admits steps) :
    ∃ before after, (h.repository.resolve p).outcome = .ok before ∧
      ((h.build steps).repository.resolve p).outcome = .ok after ∧
      (h.build steps).head = some (idOf (h.made + steps.length)) ∧
      after.fullHash = (idOf (h.made + steps.length)).text ∧
      (∀ t, before.lastTag = some t → after.lastTag = some t ∧
        after.commitDistance = before.commitDistance + steps.length ∧
        after.version = t ++ "-" ++ toString (before.commitDistance + steps.length) ++ "-g" ++
          (idOf (h.made + steps.length)).short 7 ++ (if h.clean then "" else ".dirty") ∧
        after.isCleanTag = false) ∧
      (before.lastTag = none → after.lastTag = none ∧ after.commitDistance = 0) := by
  obtain ⟨chain, ⟨found, d⟩, hw⟩ := hb.exists_walks hhead p.text
  obtain ⟨tip', chain', hw'⟩ := hw.advances hb hsteps hadmits
  have hgrown := outgrows_build (h := h) hsteps
  have htip := head_build (h := h) hsteps hne
  have hbefore := resolve_of_nearest hb hfail hhead hfeed hw.parents hw.nearest
  have hafter := resolve_of_nearest (hb.build hadmits) (hgrown.failures.trans hfail) hw'.head
    (hgrown.tags ▸ hfeed) hw'.parents hw'.nearest
  have hsize : d + steps.length ≠ 0 := by
    have := List.length_pos_iff.mpr hne
    omega
  refine ⟨_, _, hbefore, hafter, htip, ?_⟩
  generalize idOf (h.made + steps.length) = newest at htip ⊢
  obtain rfl : tip' = newest := Option.some.inj (hw'.head.symm.trans htip)
  cases found with
  | none =>
    refine ⟨rfl, ?_, fun _ => ⟨rfl, rfl⟩⟩
    rintro last ⟨⟩
  | some t =>
    refine ⟨rfl, fun last hlast => ?_, by rintro ⟨⟩⟩
    obtain rfl : p.strip t.name = last := Option.some.inj hlast
    refine ⟨rfl, rfl, ?_, ?_⟩
    · show Details.marked (h.build steps).clean
        (p.strip t.name ++ Details.behind (d + steps.length) (tip'.short 7)) = _
      rw [Details.marked_eq, hgrown.clean, Details.behind, if_neg hsize]
      simp only [String.append_assoc]
      rfl
    · have hfar : (d + steps.length == 0) = false := beq_false_of_ne hsize
      simp only [detailsBy, Details.ofNamed, hfar, Bool.and_false, Bool.false_and]

theorem resolve_advanced_merged :
    let steps : List Step := [.commitHead, .mergeHead (idOf 3)]
    merged.Built ∧ merged.failures = [] ∧ merged.head = some (idOf 5) ∧
      (∀ named ∈ merged.tags, '\n' ∉ named.1.toList) ∧ steps ≠ [] ∧ (∀ s ∈ steps, s.Advances) ∧
      merged.Admits steps ∧
      ∃ after, ((merged.build steps).repository.resolve .empty).outcome = .ok after ∧
        after.lastTag = some "0" ∧ after.commitDistance = 3 ∧
        after.version = "0-3-g5384541" ∧ after.isCleanTag = false := by
  intro steps
  have hfeed : ∀ named ∈ merged.tags, '\n' ∉ named.1.toList := by decide
  have hsteps : ∀ s ∈ steps, s.Advances := by decide
  have hadmits : merged.Admits steps := by decide
  refine ⟨built_merged, rfl, rfl, hfeed, by simp [steps], hsteps, hadmits, ?_⟩
  obtain ⟨before, after, hbefore, hafter, -, -, htag, -⟩ :=
    resolve_advanced built_merged rfl rfl hfeed .empty (by simp [steps]) hsteps hadmits
  have hvalue : ((merged.repository.resolve .empty).outcome.toOption.map fun details =>
      (details.lastTag, details.commitDistance)) = some (some "0", 1) := by decide
  rw [hbefore] at hvalue
  obtain ⟨hlast, hdistance⟩ : before.lastTag = some "0" ∧ before.commitDistance = 1 := by
    simpa [Except.toOption] using hvalue
  obtain ⟨hlast', hdistance', hversion, hclean⟩ := htag "0" hlast
  rw [hdistance] at hdistance' hversion
  exact ⟨after, hafter, hlast', hdistance', hversion.trans (by decide), hclean⟩

end TagVersion.History
