import Mathlib.Data.List.Induction
import Mathlib.Tactic.Lemma

/-!
Systems that keep values by key and tell them. The law of one move is that a key keeps what it
holds, and that a key which holds nothing comes to hold what the move tells under it. So after any
moves a key holds what was told under it first, and nothing else is ever told under it.
-/

namespace TagVersion

/-- A system with its moves, what it keeps under each key, and what a move tells under a key. -/
structure Keeper (σ μ κ α : Type) where
  start : σ
  next : σ → μ → σ
  kept : σ → κ → Option α
  tells : σ → μ → κ → α → Prop
  kept_start : ∀ k, kept start k = none
  kept_next : ∀ s m k v,
    kept (next s m) k = some v ↔ kept s k = some v ∨ kept s k = none ∧ tells s m k v
  eq_of_tells : ∀ s m k v w, kept s k = some w → tells s m k v → v = w

namespace Keeper

variable {σ μ κ α : Type} {K : Keeper σ μ κ α} {moves before rest : List μ} {m : μ} {k : κ}
  {v w : α}

/-- What some moves lead to. -/
def run (K : Keeper σ μ κ α) (moves : List μ) : σ := moves.foldl K.next K.start

lemma run_append_singleton (K : Keeper σ μ κ α) (moves : List μ) (m : μ) :
    K.run (moves ++ [m]) = K.next (K.run moves) m := by
  rw [run, List.foldl_append]
  rfl

/-- What holds at the start and survives every move holds after any moves. -/
lemma run_induction {P : σ → Prop} (start : P K.start) (next : ∀ s m, P s → P (K.next s m))
    (moves : List μ) : P (K.run moves) := by
  induction moves using List.reverseRecOn with
  | nil => exact start
  | append_singleton moves m ih =>
    rw [run_append_singleton]
    exact next _ m ih

/-- One of some moves tells something under a key. -/
def Told (K : Keeper σ μ κ α) (k : κ) (moves : List μ) : Prop :=
  ∃ before m rest v, moves = before ++ m :: rest ∧ K.tells (K.run before) m k v

/-- What the first move that tells something under a key tells. -/
def FirstTold (K : Keeper σ μ κ α) (k : κ) (moves : List μ) (v : α) : Prop :=
  ∃ before m rest, moves = before ++ m :: rest ∧ K.tells (K.run before) m k v ∧ ¬ K.Told k before

lemma not_told_nil : ¬ K.Told k [] := by
  rintro ⟨before, m, rest, v, heq, -⟩
  simp at heq

/-- A move among some moves and one more is that one, or among them. -/
lemma append_singleton_eq_iff {n : μ} :
    moves ++ [m] = before ++ n :: rest ↔
      (moves = before ∧ m = n ∧ rest = []) ∨
        ∃ rest', rest = rest' ++ [m] ∧ moves = before ++ n :: rest' := by
  constructor
  · intro heq
    rcases List.eq_nil_or_concat rest with rfl | ⟨rest', last, rfl⟩
    · obtain ⟨hmoves, hm⟩ := List.append_inj' heq rfl
      exact .inl ⟨hmoves, List.singleton_inj.mp hm, rfl⟩
    · rw [List.concat_eq_append, ← List.cons_append, ← List.append_assoc] at heq
      obtain ⟨hmoves, hm⟩ := List.append_inj' heq rfl
      obtain rfl := List.singleton_inj.mp hm
      exact .inr ⟨rest', List.concat_eq_append, hmoves⟩
  · rintro (⟨rfl, rfl, rfl⟩ | ⟨rest', rfl, rfl⟩)
    · rfl
    · simp

lemma told_append_singleton_iff :
    K.Told k (moves ++ [m]) ↔ K.Told k moves ∨ ∃ v, K.tells (K.run moves) m k v := by
  simp only [Told, append_singleton_eq_iff]
  constructor
  · rintro ⟨before, n, rest, v, ⟨rfl, rfl, -⟩ | ⟨rest', -, rfl⟩, htells⟩
    · exact .inr ⟨v, htells⟩
    · exact .inl ⟨before, n, rest', v, rfl, htells⟩
  · rintro (⟨before, n, rest, v, rfl, htells⟩ | ⟨v, htells⟩)
    · exact ⟨before, n, _, v, .inr ⟨rest, rfl, rfl⟩, htells⟩
    · exact ⟨moves, m, [], v, .inl ⟨rfl, rfl, rfl⟩, htells⟩

lemma firstTold_append_singleton_iff :
    K.FirstTold k (moves ++ [m]) v ↔
      K.FirstTold k moves v ∨ ¬ K.Told k moves ∧ K.tells (K.run moves) m k v := by
  simp only [FirstTold, append_singleton_eq_iff]
  constructor
  · rintro ⟨before, n, rest, ⟨rfl, rfl, -⟩ | ⟨rest', -, rfl⟩, htells, hnot⟩
    · exact .inr ⟨hnot, htells⟩
    · exact .inl ⟨before, n, rest', rfl, htells, hnot⟩
  · rintro (⟨before, n, rest, rfl, htells, hnot⟩ | ⟨hnot, htells⟩)
    · exact ⟨before, n, _, .inr ⟨rest, rfl, rfl⟩, htells, hnot⟩
    · exact ⟨moves, m, [], .inl ⟨rfl, rfl, rfl⟩, htells, hnot⟩

/-- Where something is told, something is told first. -/
lemma told_iff : K.Told k moves ↔ ∃ v, K.FirstTold k moves v := by
  induction moves using List.reverseRecOn with
  | nil => exact iff_of_false not_told_nil fun ⟨v, before, m, rest, heq, _⟩ => by simp at heq
  | append_singleton moves m ih =>
    simp only [told_append_singleton_iff, firstTold_append_singleton_iff, exists_or, ← ih,
      exists_and_left]
    by_cases h : K.Told k moves <;> simp [h]

/-- **A key holds what was told under it first.** -/
theorem kept_run_iff : K.kept (K.run moves) k = some v ↔ K.FirstTold k moves v := by
  induction moves using List.reverseRecOn generalizing v with
  | nil =>
    refine iff_of_false ?_ fun ⟨before, m, rest, heq, _⟩ => by simp at heq
    simp [run, K.kept_start]
  | append_singleton moves m ih =>
    have hnone : K.kept (K.run moves) k = none ↔ ¬ K.Told k moves := by
      rw [told_iff, not_exists, Option.eq_none_iff_forall_ne_some]
      exact forall_congr' fun _ => not_congr ih
    rw [run_append_singleton, K.kept_next, firstTold_append_singleton_iff, ih, hnone]

lemma exists_kept_run_iff : (∃ v, K.kept (K.run moves) k = some v) ↔ K.Told k moves := by
  rw [told_iff]
  exact exists_congr fun _ => kept_run_iff

lemma kept_run_eq_none_iff : K.kept (K.run moves) k = none ↔ ¬ K.Told k moves := by
  rw [← exists_kept_run_iff, ← Option.isSome_iff_exists, Option.not_isSome_iff_eq_none]

/-- What is kept stays. -/
lemma kept_append (h : K.kept (K.run before) k = some v) (rest : List μ) :
    K.kept (K.run (before ++ rest)) k = some v := by
  induction rest using List.reverseRecOn with
  | nil => rwa [List.append_nil]
  | append_singleton rest m ih =>
    rw [← List.append_assoc, run_append_singleton, K.kept_next]
    exact .inl ih

/-- What is told is kept. -/
lemma kept_next_of_tells {s : σ} (h : K.tells s m k v) : K.kept (K.next s m) k = some v := by
  rw [K.kept_next]
  cases hkept : K.kept s k with
  | none => exact .inr ⟨rfl, h⟩
  | some w => rw [K.eq_of_tells s m k v w hkept h]; exact .inl rfl

lemma kept_run_of_tells (h : K.tells (K.run before) m k v) :
    K.kept (K.run (before ++ m :: rest)) k = some v := by
  rw [← List.singleton_append, ← List.append_assoc]
  refine kept_append ?_ rest
  rw [run_append_singleton]
  exact kept_next_of_tells h

/-- What is told under a key is what was told under it first. -/
lemma firstTold_of_tells (h : K.tells (K.run moves) m k v) : K.FirstTold k (moves ++ [m]) v := by
  rw [← kept_run_iff]
  exact kept_run_of_tells h

end Keeper

end TagVersion
