import TagVersion.Describe
import TagVersion.Proofs.Describe.FirstParents
import TagVersion.Proofs.Reading
import TagVersion.Proofs.Tag

/-!
What describing a history asks and what it comes to. `Facts` holds what the repository would tell,
`Tells` says that it does so but for some questions that fail. From the facts follow the plan of
the questions and the description; `runs_describe` says that this is the plan that is followed.
-/

namespace TagVersion

open Reading

namespace Describe

/-- The description of a tip by a tag and the number of steps to it, or by that to the end. Of the
number it keeps what fits into thirty-two bits. -/
def describedBy (tip : ObjectId) (found : Option Tag × Nat) : Description where
  tag := found.1.map Tag.name
  distance := .ofNat found.2
  shortHash := tip.short Description.shortLength
  head := tip

lemma toNat_distance_describedBy {found : Option Tag × Nat}
    (h : found.2 < Description.distanceBound) (tip : ObjectId) :
    (describedBy tip found).distance.toNat = found.2 :=
  UInt32.toNat_ofNat_of_lt' h

/-- What a repository holds, as far as describing it by some tags comes to see it. -/
structure Facts where
  head : Option ObjectId
  /-- The tags with the prefix, in the order in which they are listed. -/
  tags : List TagRef
  /-- The commit that a tag leads to. -/
  lead : TagRef → Option ObjectId
  parents : ObjectId → Option (List ObjectId)
  time : TagRef → Option Instant

/-- The answers of a repository are the facts, but for the questions that fail. -/
structure Tells (fails : Query → Option Repository.Failure) (r : Repository) (start : String)
    (f : Facts) : Prop where
  head : r.head = verdict fails [.head] (.ok f.head)
  tags : r.tags start = verdict fails [.tags start] (.ok f.tags)
  peel : ∀ t ∈ f.tags, r.peel t = verdict fails [.peel t] (.ok (f.lead t))
  parents : ∀ c ps, f.parents c = some ps → r.parents c = verdict fails [.parents c] (.ok ps)
  tagger : ∀ t ∈ f.tags, r.tagger t = verdict fails [.tagger t] (.ok (f.time t))
  commits : ∀ c ps, f.parents c = some ps → c ∈ r.commits

namespace Facts

variable (f : Facts)

def candidate (t : TagRef) : Option Candidate := (f.lead t).map (t, ·)

/-- The tags that lead to a commit, each with its commit. -/
def candidates : List Candidate := f.tags.filterMap f.candidate

/-- All that is known of a candidate. -/
def tagOf (candidate : Candidate) : Tag where
  name := candidate.1.name
  target := candidate.1.target
  peeled := candidate.2
  annotated := candidate.1.target ≠ candidate.2
  time := if candidate.1.target = candidate.2 then none else f.time candidate.1

def group (c : ObjectId) : List Candidate := onCommit c f.candidates

/-- Whether no candidate leads to a commit. -/
def untagged (c : ObjectId) : Bool := (f.group c).isEmpty

/-- The questions for the times of some candidates; plain tags are not asked for one. -/
def taggers (group : List Candidate) : List Query :=
  (group.filter fun candidate => candidate.1.target ≠ candidate.2).map fun candidate =>
    .tagger candidate.1

lemma taggers_cons (candidate : Candidate) (group : List Candidate) :
    taggers (candidate :: group) = taggers [candidate] ++ taggers group := by
  unfold taggers
  rw [← List.map_append, ← List.filter_append, List.singleton_append]

/-- What a walk along a chain asks: for the parents of each commit that carries no candidate, then
for the times of the candidates on the commit where it stops. -/
def walkPlan (chain : List ObjectId) : List Query :=
  (chain.takeWhile f.untagged).map .parents ++
    match chain.dropWhile f.untagged with
    | [] => []
    | c :: _ => taggers (f.group c)

/-- What a walk along a chain comes to: the best tag of the commit where it stops and the number of
commits before it, or no tag and the number of steps to the end. -/
def nearest (chain : List ObjectId) : Option Tag × Nat :=
  match chain.dropWhile f.untagged with
  | [] => (none, chain.length - 1)
  | c :: _ => (Tag.select ((f.group c).map f.tagOf), (chain.takeWhile f.untagged).length)

variable {f} {c : ObjectId} {chain : List ObjectId}

lemma mem_candidates_iff {t : TagRef} :
    (t, c) ∈ f.candidates ↔ t ∈ f.tags ∧ f.lead t = some c := by
  simp only [candidates, candidate, List.mem_filterMap, Option.map_eq_some_iff, Prod.mk.injEq]
  constructor
  · rintro ⟨t, ht, c, hlead, rfl, rfl⟩
    exact ⟨ht, hlead⟩
  · rintro ⟨ht, hlead⟩
    exact ⟨t, ht, c, hlead, rfl, rfl⟩

lemma mem_group_iff {candidate : Candidate} :
    candidate ∈ f.group c ↔
      candidate.1 ∈ f.tags ∧ f.lead candidate.1 = some c ∧ candidate.2 = c := by
  obtain ⟨t, peeled⟩ := candidate
  simp only [group, onCommit, List.mem_filter, mem_candidates_iff, decide_eq_true_eq]
  constructor
  · rintro ⟨⟨ht, hlead⟩, rfl⟩
    exact ⟨ht, hlead, rfl⟩
  · rintro ⟨ht, hlead, rfl⟩
    exact ⟨⟨ht, hlead⟩, rfl⟩

lemma walkPlan_of_untagged (h : f.untagged c = true) :
    f.walkPlan (c :: chain) = .parents c :: f.walkPlan chain := by
  simp [walkPlan, h]

lemma walkPlan_of_tagged (h : f.untagged c = false) :
    f.walkPlan (c :: chain) = taggers (f.group c) := by
  simp [walkPlan, h]

lemma nearest_of_untagged (h : f.untagged c = true) (hne : chain ≠ []) :
    f.nearest (c :: chain) = ((f.nearest chain).1, (f.nearest chain).2 + 1) := by
  have hpos := List.length_pos_iff.mpr hne
  unfold nearest
  rw [List.dropWhile_cons_of_pos h, List.takeWhile_cons_of_pos h]
  split
  · simp only [List.length_cons]
    congr 1
    omega
  · rfl

lemma nearest_of_tagged (h : f.untagged c = false) :
    f.nearest (c :: chain) = (Tag.select ((f.group c).map f.tagOf), 0) := by
  simp [nearest, h]

/-- What describing the tip asks, in order. -/
def describePlan (start : String) (chain : List ObjectId) : List Query :=
  match f.head with
  | none => [.head]
  | some _ => .head :: .tags start :: (f.tags.map .peel ++ f.walkPlan chain)

/-- The description that the facts make of the tip. -/
def description (chain : List ObjectId) : Option Description :=
  f.head.map (describedBy · (f.nearest chain))

end Facts

variable {fails : Query → Option Repository.Failure} {r : Repository} {start : String} {f : Facts}

lemma runs_debug : Runs fails (debug : Reading Repository.Failure Unit) [] (.ok ()) := .log _

lemma runs_trace : Runs fails (trace : Reading Repository.Failure Unit) [] (.ok ()) := .log _

lemma runs_peelAll (h : Tells fails r start f) {tags : List TagRef} (hsub : tags ⊆ f.tags) :
    Runs fails (peelAll r tags) (tags.map .peel) (.ok (tags.filterMap f.candidate)) := by
  induction tags with
  | nil => exact .pure _
  | cons t tags ih =>
    obtain ⟨ht, htags⟩ := List.cons_subset.mp hsub
    have hask := r.runs_ask (h.peel t ht)
    unfold peelAll
    cases hlead : f.lead t with
    | none =>
      rw [hlead] at hask
      rw [List.filterMap_cons_none (by simp [Facts.candidate, hlead])]
      exact hask.bind (runs_debug.bind (ih htags))
    | some c =>
      rw [hlead] at hask
      rw [List.filterMap_cons_some (show f.candidate t = some (t, c) by
        simp [Facts.candidate, hlead])]
      exact hask.bind ((ih htags).bind_pure _)

lemma runs_candidates (h : Tells fails r start f) :
    Runs fails (candidates r start) (.tags start :: f.tags.map .peel) (.ok f.candidates) :=
  (r.runs_ask h.tags).bind (runs_peelAll h (List.Subset.refl _))

lemma runs_toTag (h : Tells fails r start f) {candidate : Candidate} (ht : candidate.1 ∈ f.tags) :
    Runs fails (toTag r candidate) (Facts.taggers [candidate]) (.ok (f.tagOf candidate)) := by
  obtain ⟨ref, peeled⟩ := candidate
  unfold toTag Facts.taggers Facts.tagOf
  by_cases heq : ref.target = peeled
  · simpa [heq] using Runs.pure _
  · have hask : Runs fails (r.askTagger ref) [.tagger ref] (.ok (f.time ref)) :=
      r.runs_ask (h.tagger ref ht)
    simpa [heq] using hask.bind_pure _

lemma runs_toTags (h : Tells fails r start f) {group : List Candidate}
    (hsub : ∀ candidate ∈ group, candidate.1 ∈ f.tags) :
    Runs fails (toTags r group) (Facts.taggers group) (.ok (group.map f.tagOf)) := by
  induction group with
  | nil => exact .pure _
  | cons candidate group ih =>
    obtain ⟨hcand, hgroup⟩ := List.forall_mem_cons.mp hsub
    rw [Facts.taggers_cons]
    exact (runs_toTag h hcand).bind ((ih hgroup).bind_pure _)

lemma runs_best (h : Tells fails r start f) {c : ObjectId} {group : List Candidate}
    (hsub : ∀ candidate ∈ group, candidate.1 ∈ f.tags) {t : Tag}
    (hsel : Tag.select (group.map f.tagOf) = some t) :
    Runs fails (best r c group) (Facts.taggers group) (.ok t) := by
  unfold best
  rw [← List.append_nil (Facts.taggers group)]
  refine (runs_toTags h hsub).bind ?_
  simp only [hsel]
  split
  · exact Runs.bind (a := ()) runs_trace (.pure t)
  · exact .pure t

lemma runs_walk_of_tagged (h : Tells fails r start f) {c : ObjectId} (hc : f.untagged c = false)
    (bound : Nat) (distance : UInt32) :
    Runs fails (walk r f.candidates (bound + 1) c distance) (Facts.taggers (f.group c))
      (.ok (Tag.select ((f.group c).map f.tagOf), distance)) := by
  have hne : (f.group c).map f.tagOf ≠ [] := by simpa [Facts.untagged] using hc
  obtain ⟨t, -, hsel, -⟩ := Tag.select_spec hne
  have hbest := runs_best (c := c) h (fun _ hmem => (Facts.mem_group_iff.mp hmem).1) hsel
  rw [hsel, walk, ← List.append_nil (Facts.taggers _)]
  obtain ⟨candidate, group, hgroup⟩ :=
    List.exists_cons_of_ne_nil fun heq => hne (congrArg (List.map f.tagOf) heq)
  rw [hgroup] at hbest ⊢
  rw [show onCommit c f.candidates = candidate :: group from hgroup]
  exact hbest.bind (runs_debug.bind (.pure _))

/-- Where none sits there, the walk asks for the parents and goes on with the first. -/
lemma walk_of_untagged {c : ObjectId} (hc : f.untagged c = true) (bound : Nat)
    (distance : UInt32) :
    walk r f.candidates (bound + 1) c distance = (do
      match ← r.askParents c with
      | [] => do
        debug
        return (none, distance)
      | parent :: _ => do
        trace
        walk r f.candidates bound parent (distance + 1)) := by
  have hnil : onCommit c f.candidates = [] := List.isEmpty_iff.mp hc
  rw [walk]
  generalize onCommit c f.candidates = group at hnil
  subst hnil
  rfl

lemma add_ofNat_zero (distance : UInt32) : distance + .ofNat 0 = distance :=
  UInt32.add_zero distance

lemma add_ofNat_succ (distance : UInt32) (n : Nat) :
    distance + .ofNat (n + 1) = distance + 1 + .ofNat n := by
  rw [UInt32.ofNat_add, UInt32.add_comm (.ofNat n), UInt32.add_assoc]
  rfl

/-- The walk up a chain that ends follows its plan to the nearest tag. -/
lemma runs_walk (h : Tells fails r start f) {c : ObjectId} {chain : List ObjectId}
    (hchain : FirstParents f.parents c chain) {bound : Nat} (hbound : chain.length ≤ bound)
    (distance : UInt32) :
    Runs fails (walk r f.candidates bound c distance) (f.walkPlan chain)
      (.ok ((f.nearest chain).1, distance + .ofNat (f.nearest chain).2)) := by
  induction hchain generalizing bound distance with
  | @last c hc =>
    obtain ⟨bound, rfl⟩ := Nat.exists_eq_add_of_le' (show 1 ≤ bound from hbound)
    cases htag : f.untagged c with
    | false =>
      rw [Facts.walkPlan_of_tagged htag, Facts.nearest_of_tagged htag, add_ofNat_zero]
      exact runs_walk_of_tagged h htag _ _
    | true =>
      have hnear : f.nearest [c] = (none, 0) := by simp [Facts.nearest, htag]
      have hplan : f.walkPlan [c] = [.parents c] ++ [] := by simp [Facts.walkPlan, htag]
      rw [walk_of_untagged htag, hnear, add_ofNat_zero, hplan]
      exact (r.runs_ask (h.parents c _ hc)).bind (runs_debug.bind (.pure _))
  | @step c p others chain hc hp ih =>
    obtain ⟨bound, rfl⟩ := Nat.exists_eq_add_of_le' (Nat.le_trans (Nat.le_add_left _ _) hbound)
    cases htag : f.untagged c with
    | false =>
      rw [Facts.walkPlan_of_tagged htag, Facts.nearest_of_tagged htag, add_ofNat_zero]
      exact runs_walk_of_tagged h htag _ _
    | true =>
      have hrest := ih (Nat.le_of_succ_le_succ hbound) (distance + 1)
      rw [walk_of_untagged htag, Facts.nearest_of_untagged htag hp.ne_nil,
        Facts.walkPlan_of_untagged htag, add_ofNat_succ]
      exact (r.runs_ask (h.parents c _ hc)).bind (runs_trace.bind hrest)

/-- A tip is described by what the walk from it comes to. -/
lemma runs_describe_of_walk (h : Tells fails r start f) {tip : ObjectId} (htip : f.head = some tip)
    {plan : List Query} {found : Option Tag × UInt32}
    (hwalk : Runs fails (walk r f.candidates (r.commits.length + 1) tip 0) plan (.ok found)) :
    Runs fails (r.describe start) (.head :: .tags start :: (f.tags.map .peel ++ plan))
      (.ok (some ⟨found.1.map Tag.name, found.2, tip.short Description.shortLength, tip⟩)) := by
  have hask : Runs fails r.askHead [.head] (.ok (some tip)) := htip ▸ r.runs_ask h.head
  have hwalk := hwalk.bind_pure fun found : Option Tag × UInt32 =>
    some ({ tag := found.1.map Tag.name
            distance := found.2
            shortHash := tip.short Description.shortLength
            head := tip } : Description)
  exact hask.bind ((runs_candidates h).bind (runs_debug.bind hwalk))

/-- **Describing a tip whose first parents come to an end** asks the plan that the facts make and
comes to the description that they make. -/
theorem runs_describe (h : Tells fails r start f) {chain : List ObjectId}
    (hchain : ∀ tip, f.head = some tip → FirstParents f.parents tip chain) :
    Runs fails (r.describe start) (f.describePlan start chain) (.ok (f.description chain)) := by
  unfold Facts.describePlan Facts.description
  cases htip : f.head with
  | none =>
    have hask : Runs fails r.askHead [.head] (.ok none) := htip ▸ r.runs_ask h.head
    exact hask.bind (.pure _)
  | some tip =>
    have hbound : chain.length ≤ r.commits.length + 1 :=
      Nat.le_succ_of_le ((hchain tip htip).length_le h.commits)
    have hwalk := runs_walk h (hchain tip htip) hbound 0
    rw [UInt32.zero_add] at hwalk
    exact runs_describe_of_walk h htip hwalk

end Describe

end TagVersion
