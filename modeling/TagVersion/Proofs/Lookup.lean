import Mathlib.Data.List.Nodup
import Mathlib.Tactic.Lemma

/-!
Looking a key up in a list of pairs. Where no key stands twice, a pair is found just if it is there,
so the order of the pairs does not matter.
-/

namespace TagVersion

variable {α β : Type} [BEq α] [LawfulBEq α] {entries : List (α × β)} {key : α} {value : β}

lemma lookup_eq_none_iff_notMem : entries.lookup key = none ↔ key ∉ entries.map Prod.fst := by
  rw [List.lookup_eq_none_iff]
  simp only [bne_iff_ne, List.mem_map, not_exists, not_and]
  exact forall₂_congr fun _ _ => ne_comm

lemma lookup_eq_some_iff_mem (h : (entries.map Prod.fst).Nodup) :
    entries.lookup key = some value ↔ (key, value) ∈ entries := by
  induction entries with
  | nil => simp
  | cons entry entries ih =>
    obtain ⟨other, old⟩ := entry
    obtain ⟨hnew, hrest⟩ := List.nodup_cons.mp h
    rw [List.lookup_cons]
    by_cases hkey : key = other
    · subst hkey
      have hnot : (key, value) ∉ entries := fun hmem => hnew (List.mem_map.mpr ⟨_, hmem, rfl⟩)
      simp [hnot, eq_comm]
    · simp [beq_false_of_ne hkey, hkey, ih hrest]

lemma perm_iff_lookup_eq {entries' : List (α × β)} (h : (entries.map Prod.fst).Nodup)
    (h' : (entries'.map Prod.fst).Nodup) :
    entries.Perm entries' ↔ ∀ key, entries.lookup key = entries'.lookup key := by
  rw [List.perm_ext_iff_of_nodup h.of_map h'.of_map, Prod.forall]
  simp only [← lookup_eq_some_iff_mem h, ← lookup_eq_some_iff_mem h']
  exact forall_congr' fun key => ⟨fun hsame => Option.ext hsame, fun heq value => by rw [heq]⟩

end TagVersion
