import Mathlib.Data.List.Nodup
import Mathlib.Tactic.ByContra
import Mathlib.Tactic.Lemma
import TagVersion.Proofs.Text.ByteOrder
import TagVersion.Tag

/-!
Which tag is the better one, told without the comparison that finds it, and that the choice among
some tags is the best of them. The order is total but for tags that agree in all that is compared.
-/

namespace TagVersion

open Std

namespace Instant

/-- No time is before every time; times go by their seconds, then by their nanoseconds. -/
def Before : Option Instant → Option Instant → Prop
  | none, some _ => True
  | some a, some b => a.seconds < b.seconds ∨ a.seconds = b.seconds ∧ a.nanoseconds < b.nanoseconds
  | _, none => False

instance : TransOrd Instant :=
  inferInstanceAs (TransCmp (compareLex (compareOn seconds) (compareOn nanoseconds)))

instance : LawfulEqOrd Instant where
  eq_of_compare {a b} h := by
    change (compare a.seconds b.seconds).then (compare a.nanoseconds b.nanoseconds) = .eq at h
    rw [Ordering.then_eq_eq, Std.compare_eq_iff_eq, Std.compare_eq_iff_eq] at h
    cases a
    cases b
    simpa using h

lemma compare_eq_lt_iff {s t : Option Instant} : compare s t = .lt ↔ Before s t := by
  match s, t with
  | none, none => simp [Before]
  | none, some _ => exact iff_of_true rfl trivial
  | some _, none => simp [Before]
  | some a, some b =>
    change (compare a.seconds b.seconds).then (compare a.nanoseconds b.nanoseconds) = .lt ↔ _
    rw [Ordering.then_eq_lt, Int.compare_eq_lt, Std.compare_eq_iff_eq, Nat.compare_eq_lt]
    rfl

end Instant

namespace Tag

/-- The better of two tags is the annotated one, else the later one, else the one whose name comes
first by its bytes. -/
def Beats (a b : Tag) : Prop :=
  a.annotated = true ∧ b.annotated = false ∨
    a.annotated = b.annotated ∧
      (Instant.Before b.time a.time ∨
        a.time = b.time ∧ Bytes.ofText a.name < Bytes.ofText b.name)

instance : TransCmp preference :=
  inferInstanceAs (TransCmp (compareLex (compareOn annotated)
    (compareLex (compareOn time) fun a b => compareOn name b a)))

lemma compare_bool_eq_gt_iff {a b : Bool} : compare a b = .gt ↔ a = true ∧ b = false := by
  cases a <;> cases b <;> decide

lemma compare_string_eq_gt_iff {a b : String} : compare b a = .gt ↔ a < b := by
  show compareOfLessAndEq b a = .gt ↔ a < b
  unfold compareOfLessAndEq
  split_ifs with hba heq
  · exact iff_of_false (by simp) (String.lt_asymm hba)
  · exact iff_of_false (by simp) (heq ▸ String.lt_irrefl _)
  · refine iff_of_true rfl ?_
    by_contra hab
    exact heq (String.le_antisymm hab hba)

lemma preference_eq_gt_iff {a b : Tag} : preference a b = .gt ↔ a.Beats b := by
  unfold preference Beats
  rw [Ordering.then_eq_gt, Ordering.then_eq_gt, compare_bool_eq_gt_iff, Std.compare_eq_iff_eq,
    @OrientedCmp.gt_iff_lt _ compare, Instant.compare_eq_lt_iff, Std.compare_eq_iff_eq,
    compare_string_eq_gt_iff, Bytes.ofText_lt_iff]

lemma preference_eq_lt_iff {a b : Tag} : preference a b = .lt ↔ b.Beats a := by
  rw [← preference_eq_gt_iff, OrientedCmp.gt_iff_lt]

lemma Beats.asymm {a b : Tag} (h : a.Beats b) : ¬ b.Beats a := by
  rw [← preference_eq_gt_iff] at h ⊢
  rw [OrientedCmp.gt_iff_lt, h]
  simp

/-- Of two tags that are named differently one is the better. -/
lemma beats_or_beats {a b : Tag} (h : a.name ≠ b.name) : a.Beats b ∨ b.Beats a := by
  cases hab : preference a b with
  | lt => exact .inr (preference_eq_lt_iff.mp hab)
  | gt => exact .inl (preference_eq_gt_iff.mp hab)
  | eq =>
    unfold preference at hab
    rw [Ordering.then_eq_eq, Ordering.then_eq_eq, Std.compare_eq_iff_eq (a := b.name)] at hab
    exact absurd hab.2.2.symm h

/-! ### The choice -/

variable {α : Type} {tagOf : α → Tag}

lemma betterBy_eq (tagOf : α → Tag) (a b : α) :
    betterBy tagOf a b = if preference (tagOf a) (tagOf b) = .gt then a else b := by
  unfold betterBy
  split <;> simp_all

lemma betterBy_mem (tagOf : α → Tag) (a b : α) : betterBy tagOf a b ∈ [a, b] := by
  rw [betterBy_eq]
  split_ifs <;> simp

lemma isLE_betterBy_left (a b : α) : (preference (tagOf a) (tagOf (betterBy tagOf a b))).isLE := by
  rw [betterBy_eq]
  split_ifs with h
  · exact ReflCmp.isLE_rfl
  · exact Ordering.isLE_iff_ne_gt.mpr h

lemma isLE_betterBy_right (a b : α) :
    (preference (tagOf b) (tagOf (betterBy tagOf a b))).isLE := by
  rw [betterBy_eq]
  split_ifs with h
  · rw [OrientedCmp.lt_of_gt h]
    rfl
  · exact ReflCmp.isLE_rfl

/-- What the fold keeps: it holds one of the things it has seen, and none of them is better. -/
lemma foldl_betterBy (tagOf : α → Tag) (a : α) (rest : List α) :
    rest.foldl (betterBy tagOf) a ∈ a :: rest ∧
      ∀ b ∈ a :: rest, (preference (tagOf b) (tagOf (rest.foldl (betterBy tagOf) a))).isLE := by
  induction rest generalizing a with
  | nil => simp [ReflCmp.isLE_rfl]
  | cons c rest ih =>
    obtain ⟨hmem, hbest⟩ := ih (betterBy tagOf a c)
    rw [List.foldl_cons]
    have hnew := hbest _ List.mem_cons_self
    refine ⟨?_, fun b hb => ?_⟩
    · have := betterBy_mem tagOf a c
      simp only [List.mem_cons, List.not_mem_nil, or_false] at hmem this ⊢
      grind
    · rcases List.mem_cons.mp hb with rfl | hb
      · exact TransCmp.isLE_trans (isLE_betterBy_left b c) hnew
      rcases List.mem_cons.mp hb with rfl | hb
      · exact TransCmp.isLE_trans (isLE_betterBy_right a b) hnew
      · exact hbest b (List.mem_cons_of_mem _ hb)

/-- Among some tags there is a choice, one of them that no other beats. -/
lemma select_spec {tags : List Tag} (h : tags ≠ []) :
    ∃ t ∈ tags, select tags = some t ∧ ∀ u ∈ tags, ¬ u.Beats t := by
  obtain ⟨a, rest, rfl⟩ := List.exists_cons_of_ne_nil h
  obtain ⟨hmem, hbest⟩ := foldl_betterBy id a rest
  refine ⟨_, hmem, rfl, fun u hu hbeats => ?_⟩
  exact Ordering.isLE_iff_ne_gt.mp (hbest u hu) (preference_eq_gt_iff.mpr hbeats)

/-- **The choice is the best.** Among tags of different names it beats every other. -/
theorem select_beats {tags : List Tag} (h : tags ≠ []) (names : (tags.map name).Nodup) :
    ∃ t ∈ tags, select tags = some t ∧ ∀ u ∈ tags, u ≠ t → t.Beats u := by
  obtain ⟨t, ht, hsel, hbest⟩ := select_spec h
  refine ⟨t, ht, hsel, fun u hu hne => ?_⟩
  have hname : t.name ≠ u.name := fun heq =>
    hne (List.inj_on_of_nodup_map names hu ht heq.symm)
  exact (beats_or_beats hname).resolve_right (hbest u hu)

/-- Among tags of different names the choice is the one that no other beats. -/
lemma select_eq_some_iff {tags : List Tag} (names : (tags.map name).Nodup) {t : Tag} :
    select tags = some t ↔ t ∈ tags ∧ ∀ u ∈ tags, ¬ u.Beats t := by
  constructor
  · intro hsel
    have hne : tags ≠ [] := by
      rintro rfl
      simp [select, selectBy] at hsel
    obtain ⟨u, hu, hsel', hbest⟩ := select_spec hne
    obtain rfl := Option.some.inj (hsel.symm.trans hsel')
    exact ⟨hu, hbest⟩
  · rintro ⟨ht, hbest⟩
    obtain ⟨u, hu, hsel, hbeats⟩ := select_beats (List.ne_nil_of_mem ht) names
    by_cases heq : t = u
    · rw [hsel, heq]
    · exact absurd (hbeats t ht heq) (hbest u hu)

lemma select_perm {tags tags' : List Tag} (names : (tags.map name).Nodup)
    (hperm : tags'.Perm tags) : select tags' = select tags := by
  have names' : (tags'.map name).Nodup := (hperm.map name).nodup_iff.mpr names
  ext t
  rw [select_eq_some_iff names, select_eq_some_iff names']
  simp only [hperm.mem_iff]

/-- Of three things the best is the same in whatever order they are compared; of equally good ones
it is the last. -/
instance (tagOf : α → Tag) : Associative (betterBy tagOf) where
  assoc a b c := by
    have hgt : ∀ {x y z}, preference x y = .gt → preference y z = .gt → preference x z = .gt :=
      TransCmp.gt_trans
    have hle : ∀ {x y z}, preference x y ≠ .gt → preference y z ≠ .gt → preference x z ≠ .gt := by
      simp only [← Ordering.isLE_iff_ne_gt]
      exact TransCmp.isLE_trans
    simp only [betterBy_eq]
    by_cases hab : preference (tagOf a) (tagOf b) = .gt <;>
      by_cases hbc : preference (tagOf b) (tagOf c) = .gt
    · simp [hab, hbc, hgt hab hbc]
    · simp [hab, hbc]
    · simp [hab, hbc]
    · simp [hab, hbc, hle hab hbc]

/-- The choice from two lists is made between the choices from each. -/
lemma selectBy_append (tagOf : α → Tag) (xs ys : List α) :
    selectBy tagOf (xs ++ ys) =
      selectBy tagOf ((selectBy tagOf xs).toList ++ (selectBy tagOf ys).toList) := by
  cases xs with
  | nil => cases ys <;> simp [selectBy]
  | cons x xs =>
    cases ys with
    | nil => simp [selectBy]
    | cons y ys => simp [selectBy, List.foldl_assoc]

/-- What the preferred one of some tags is: annotated if any of them is; if so, no annotated one is
later; and none that is like it in both has a name that comes first by its bytes. -/
structure Preferred (tags : List Tag) (t : Tag) : Prop where
  mem : t ∈ tags
  annotated : (∃ u ∈ tags, u.annotated = true) → t.annotated = true
  latest : t.annotated = true →
    ∀ u ∈ tags, u.annotated = true → ¬ Instant.Before t.time u.time
  first : ∀ u ∈ tags, u.annotated = t.annotated → u.time = t.time →
    ¬ Bytes.ofText u.name < Bytes.ofText t.name

lemma preferred_iff {tags : List Tag} (plain : ∀ u ∈ tags, u.annotated = false → u.time = none)
    {t : Tag} : Preferred tags t ↔ t ∈ tags ∧ ∀ u ∈ tags, ¬ u.Beats t := by
  constructor
  · rintro ⟨hmem, hann, hlatest, hfirst⟩
    refine ⟨hmem, fun u hu => ?_⟩
    rintro (⟨hu', ht⟩ | ⟨hsame, hbefore | ⟨htime, hname⟩⟩)
    · simp [ht] at hann
      exact absurd hu' (by simp [hann u hu])
    · cases ht : t.annotated with
      | true => exact hlatest ht u hu (hsame.trans ht) hbefore
      | false =>
        rw [plain t hmem ht, plain u hu (hsame.trans ht)] at hbefore
        exact hbefore
    · exact hfirst u hu hsame htime hname
  · rintro ⟨hmem, hbest⟩
    refine ⟨hmem, fun ⟨u, hu, hann⟩ => ?_, fun ht u hu hann hbefore => ?_,
      fun u hu hsame htime hname => ?_⟩
    · by_contra ht
      exact hbest u hu (.inl ⟨hann, Bool.eq_false_iff.mpr ht⟩)
    · exact hbest u hu (.inr ⟨hann.trans ht.symm, .inl hbefore⟩)
    · exact hbest u hu (.inr ⟨hsame, .inr ⟨htime, hname⟩⟩)

/-- **The preferred tag is chosen**, and it is the only one of its kind, if the tags are named
differently and none has a time but annotated ones. The choice does not depend on their order, and
it may be made from parts of the list first. -/
theorem select_preferred {tags : List Tag} (hne : tags ≠ []) (names : (tags.map name).Nodup)
    (plain : ∀ u ∈ tags, u.annotated = false → u.time = none) :
    (∃ t, select tags = some t ∧ ∀ u, Preferred tags u ↔ u = t) ∧
    (∀ tags', tags'.Perm tags → select tags' = select tags) ∧
    ∀ xs ys, select (xs ++ ys) = select ((select xs).toList ++ (select ys).toList) := by
  refine ⟨?_, fun _ => select_perm names, selectBy_append id⟩
  obtain ⟨t, -, hsel, -⟩ := select_spec hne
  refine ⟨t, hsel, fun u => ?_⟩
  rw [preferred_iff plain, ← select_eq_some_iff names, hsel]
  exact ⟨fun h => (Option.some.inj h).symm, fun h => h ▸ rfl⟩

theorem select_preferred_tied :
    let c : ObjectId := ⟨"c000000000000000000000000000000000000000", by decide⟩
    let o : ObjectId := ⟨"0b00000000000000000000000000000000000000", by decide⟩
    let tags : List Tag := [⟨"1", c, c, false, none⟩, ⟨"4", o, c, true, some ⟨7, 0⟩⟩,
      ⟨"3", o, c, true, some ⟨7, 0⟩⟩, ⟨"2", o, c, true, none⟩]
    tags ≠ [] ∧ (tags.map name).Nodup ∧ (∀ u ∈ tags, u.annotated = false → u.time = none) ∧
      Preferred tags ⟨"3", o, c, true, some ⟨7, 0⟩⟩ := by
  intro c o tags
  have hne : tags ≠ [] := by simp [tags]
  have names : (tags.map name).Nodup := by decide
  have plain : ∀ u ∈ tags, u.annotated = false → u.time = none := by simp [tags]
  obtain ⟨t, hsel, hpreferred⟩ := (select_preferred hne names plain).1
  refine ⟨hne, names, plain, (hpreferred _).mpr ?_⟩
  have hvalue : select tags = some ⟨"3", o, c, true, some ⟨7, 0⟩⟩ := by decide
  exact Option.some.inj (hvalue.symm.trans hsel)

end Tag

end TagVersion
