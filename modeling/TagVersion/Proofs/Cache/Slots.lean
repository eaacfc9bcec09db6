import Mathlib.Tactic.Lemma
import TagVersion.Cache

/-!
What the two changes of a cache do to what it stores. A key that is touched gets a slot and no
value; a value is put into the slot of one key, if that key has a slot.
-/

namespace TagVersion.Cache

variable {κ α : Type} [DecidableEq κ] {c : Cache κ α} {key k : κ} {value : α}

/-- Whether a key has a slot. -/
def Has (c : Cache κ α) (key : κ) : Prop := (c.slots.lookup key).isSome

@[simp] lemma peek_empty (key : κ) : (empty : Cache κ α).peek key = none := rfl

lemma touch_of_has (h : c.Has key) : c.touch key = c := by
  obtain ⟨slot, hslot⟩ := Option.isSome_iff_exists.mp h
  simp [touch, hslot]

lemma lookup_of_not_has (h : ¬ c.Has key) : c.slots.lookup key = none :=
  Option.not_isSome_iff_eq_none.mp h

lemma touch_of_not_has (h : ¬ c.Has key) : c.touch key = ⟨(key, none) :: c.slots⟩ := by
  simp [touch, lookup_of_not_has h]

lemma has_cons_iff {slot : Option α} :
    Has ⟨(key, slot) :: c.slots⟩ k ↔ k = key ∨ c.Has k := by
  unfold Has
  by_cases h : k = key
  · simp [h]
  · simp [List.lookup_cons, beq_false_of_ne h, h]

lemma has_touch_iff : (c.touch key).Has k ↔ k = key ∨ c.Has k := by
  by_cases h : c.Has key
  · rw [touch_of_has h]
    exact ⟨.inr, fun hk => hk.elim (fun heq => heq ▸ h) id⟩
  · rw [touch_of_not_has h, has_cons_iff]

@[simp] lemma peek_touch (key k : κ) : (c.touch key).peek k = c.peek k := by
  by_cases h : c.Has key
  · rw [touch_of_has h]
  · rw [touch_of_not_has h]
    unfold peek
    by_cases hk : k = key
    · simp [hk, lookup_of_not_has h]
    · simp [List.lookup_cons, beq_false_of_ne hk]

lemma lookup_fill : (c.fill key value).slots.lookup k =
    (c.slots.lookup k).map fun slot => if k = key then some value else slot := by
  unfold fill
  induction c.slots with
  | nil => rfl
  | cons entry slots ih =>
    rw [List.map_cons, List.lookup_cons, List.lookup_cons]
    by_cases h : k = entry.1
    · simp [h]
    · rw [beq_false_of_ne h]
      exact ih

lemma peek_fill_self (h : c.Has key) (value : α) : (c.fill key value).peek key = some value := by
  obtain ⟨slot, hslot⟩ := Option.isSome_iff_exists.mp h
  simp [peek, lookup_fill, hslot]

lemma peek_fill_of_ne (h : k ≠ key) (value : α) : (c.fill key value).peek k = c.peek k := by
  simp [peek, lookup_fill, h]

lemma has_fill_iff : (c.fill key value).Has k ↔ c.Has k := by
  unfold Has
  rw [lookup_fill, Option.isSome_map]

end TagVersion.Cache
