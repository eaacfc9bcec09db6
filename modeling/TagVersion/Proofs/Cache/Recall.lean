import Mathlib.Data.List.Nodup
import Mathlib.Data.Set.Card
import TagVersion.Prefix
import TagVersion.Proofs.Cache.Slots
import TagVersion.Proofs.Lookup

/-!
What asking a cache for a value comes to. A value that is stored is the answer, and nothing else
happens. Where none is stored the computation runs, its result is the answer, and the cache settles:
it stores the result if that is a value. The slot that a failure leaves behind holds nothing, so it
neither answers nor counts.
-/

namespace TagVersion.Cache

variable {κ α ε : Type} [DecidableEq κ] {c : Cache κ α} {key k : κ} {value : α}

lemma has_of_peek (h : c.peek key = some value) : c.Has key := by
  unfold peek at h
  unfold Has
  cases hslot : c.slots.lookup key with
  | none => simp [hslot] at h
  | some slot => rfl

/-- The cache once a computation for a key has run: its value is stored, its failure is not. -/
def settle (c : Cache κ α) (key : κ) : Except ε α → Cache κ α
  | .ok value => (c.touch key).fill key value
  | .error _ => c.touch key

lemma get_of_peek {m : Type → Type} [Monad m] (h : c.peek key = some value)
    (compute : m (Except ε α)) : c.get key compute = pure (c, .ok value) := by
  have htouch : c.touch key = c := touch_of_has (has_of_peek h)
  unfold get
  rw [htouch, h]

lemma get_of_not_peek {m : Type → Type} [Monad m] (h : c.peek key = none)
    (compute : m (Except ε α)) :
    c.get key compute = compute >>= fun result => pure (c.settle key result, result) := by
  unfold get
  rw [peek_touch, h]
  refine congrArg (compute >>= ·) (funext fun result => ?_)
  cases result <;> rfl

lemma peek_settle_ok (key k : κ) (value : α) :
    (c.settle key (.ok value : Except ε α)).peek k = if k = key then some value else c.peek k := by
  unfold settle
  split_ifs with hk
  · subst hk
    exact peek_fill_self (has_touch_iff.mpr (.inl rfl)) value
  · rw [peek_fill_of_ne hk, peek_touch]

@[simp] lemma peek_settle_error (key k : κ) (e : ε) :
    (c.settle key (.error e : Except ε α)).peek k = c.peek k :=
  peek_touch key k

/-- After a computation a key holds what it held; or, if it held nothing, what came of a computation
for it. -/
lemma peek_settle_iff {result : Except ε α} (h : c.peek key = none) :
    (c.settle key result).peek k = some value ↔
      c.peek k = some value ∨ c.peek k = none ∧ k = key ∧ result = .ok value := by
  cases result with
  | error e => simp
  | ok other =>
    rw [peek_settle_ok]
    split_ifs with hk
    · subst hk
      simp [h]
    · simp [hk]

/-- A key that holds a value comes to hold nothing else. -/
lemma peek_iff_of_peek {kept : α} {told : Prop} (h : c.peek key = some kept) :
    c.peek k = some value ↔ c.peek k = some value ∨ c.peek k = none ∧ k = key ∧ told := by
  constructor
  · exact .inl
  · rintro (hk | ⟨hnone, rfl, -⟩)
    · exact hk
    · simp [h] at hnone

/-! ### The number of values -/

/-- No key has two slots. -/
def Distinct (c : Cache κ α) : Prop := (c.slots.map Prod.fst).Nodup

omit [DecidableEq κ] in
lemma distinct_empty : (empty : Cache κ α).Distinct := List.nodup_nil

lemma mem_map_fst_iff : k ∈ c.slots.map Prod.fst ↔ c.Has k := by
  unfold Has
  induction c.slots with
  | nil => simp
  | cons entry slots ih =>
    rw [List.map_cons, List.mem_cons, ih, List.lookup_cons]
    by_cases h : k = entry.1
    · simp [h]
    · simp [beq_false_of_ne h, h]

lemma Distinct.touch (h : c.Distinct) (key : κ) : (c.touch key).Distinct := by
  by_cases hhas : c.Has key
  · rwa [touch_of_has hhas]
  · rw [touch_of_not_has hhas]
    exact List.nodup_cons.mpr ⟨fun hmem => hhas (mem_map_fst_iff.mp hmem), h⟩

lemma Distinct.fill (h : c.Distinct) (key : κ) (value : α) : (c.fill key value).Distinct := by
  unfold Distinct Cache.fill
  rw [List.map_map]
  exact h

lemma Distinct.settle (h : c.Distinct) (key : κ) (result : Except ε α) :
    (c.settle key result).Distinct := by
  cases result with
  | error e => exact h.touch key
  | ok value => exact (h.touch key).fill key value

/-- The keys that hold a value. -/
def keys (c : Cache κ α) : List κ := (c.slots.filter (·.2.isSome)).map Prod.fst

omit [DecidableEq κ] in
lemma length_keys (c : Cache κ α) : c.keys.length = c.size := by
  rw [keys, List.length_map, size, List.countP_eq_length_filter]

omit [DecidableEq κ] in
lemma Distinct.nodup_keys (h : c.Distinct) : c.keys.Nodup :=
  (List.filter_sublist.map Prod.fst).nodup h

lemma Distinct.lookup_eq_some_iff (h : c.Distinct) {slot : Option α} :
    c.slots.lookup k = some slot ↔ (k, slot) ∈ c.slots := lookup_eq_some_iff_mem h

lemma Distinct.mem_keys_iff (h : c.Distinct) : k ∈ c.keys ↔ ∃ value, c.peek k = some value := by
  simp only [keys, List.mem_map, List.mem_filter, peek, Option.join_eq_some_iff,
    h.lookup_eq_some_iff]
  constructor
  · rintro ⟨⟨_, slot⟩, ⟨hmem, hsome⟩, rfl⟩
    obtain ⟨value, rfl⟩ := Option.isSome_iff_exists.mp hsome
    exact ⟨value, hmem⟩
  · rintro ⟨value, hmem⟩
    exact ⟨(k, some value), ⟨hmem, rfl⟩, rfl⟩

lemma Distinct.setOf_peek (h : c.Distinct) :
    {k | (c.peek k).isSome} = (c.keys.toFinset : Set κ) := by
  ext k
  rw [Set.mem_ofPred_eq, Option.isSome_iff_exists, ← h.mem_keys_iff, Finset.mem_coe,
    List.mem_toFinset]

lemma Distinct.size_eq_ncard (h : c.Distinct) : c.size = {k | (c.peek k).isSome}.ncard := by
  rw [h.setOf_peek, Set.ncard_coe_finset, List.toFinset_card_of_nodup h.nodup_keys, length_keys]

/-- Caches that hold the same values count the same. -/
lemma Distinct.size_eq {c' : Cache κ α} (h : c.Distinct) (h' : c'.Distinct)
    (hpeek : ∀ k, c.peek k = c'.peek k) : c.size = c'.size := by
  have hperm : c.keys.Perm c'.keys := by
    refine (List.perm_ext_iff_of_nodup h.nodup_keys h'.nodup_keys).mpr fun k => ?_
    rw [h.mem_keys_iff, h'.mem_keys_iff, hpeek]
  rw [← length_keys, ← length_keys, hperm.length_eq]

/-! ### Keys -/

namespace Key

/-- The key of a root, however it is spelled, and a prefix. -/
def of (root : String) (p : Prefix) : Key := ⟨Path.parts root, p.text⟩

lemma of_eq_of_iff {root root' : String} {p p' : Prefix} :
    of root p = of root' p' ↔ Path.parts root = Path.parts root' ∧ p = p' := by
  obtain ⟨text, _⟩ := p
  obtain ⟨text', _⟩ := p'
  simp [of]

end Key

end TagVersion.Cache
