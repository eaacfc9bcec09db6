import TagVersion.Proofs.Cache.Recall

/-!
Where the values of a cache lie. Two answers may be alike and still be two values, each in a cell of
its own; they share one value if it lies in one cell. A cache of cells does what the cache of their
values does.
-/

namespace TagVersion

/-- A value and the address of the cell that it lies in. -/
structure Cell (α : Type) where
  value : α
  address : Nat

namespace Cell

variable {α ε : Type}

/-- Puts what came of a computation into a new cell; a failure takes none. The state is the number
of cells so far, which is the next address. -/
def allocate : Except ε α → StateM Nat (Except ε (Cell α))
  | .error e => return .error e
  | .ok value => modifyGet fun cells => (.ok ⟨value, cells⟩, cells + 1)

@[simp] lemma allocate_error (e : ε) (cells : Nat) :
    (allocate (.error e : Except ε α)).run cells = (.error e, cells) := rfl

@[simp] lemma allocate_ok (value : α) (cells : Nat) :
    (allocate (.ok value : Except ε α)).run cells = (.ok ⟨value, cells⟩, cells + 1) := rfl

lemma map_value_allocate (result : Except ε α) (cells : Nat) :
    ((allocate result).run cells).1.map Cell.value = result := by
  cases result <;> rfl

end Cell

namespace Cache

variable {κ α β ε : Type} {c : Cache κ α} {f : α → β}

/-- A cache with all its values changed. -/
def map (f : α → β) (c : Cache κ α) : Cache κ β :=
  ⟨c.slots.map fun (k, slot) => (k, slot.map f)⟩

variable [DecidableEq κ]

lemma lookup_map (f : α → β) (c : Cache κ α) (key : κ) :
    (c.map f).slots.lookup key = (c.slots.lookup key).map (Option.map f) := by
  unfold map
  induction c.slots with
  | nil => rfl
  | cons entry slots ih =>
    rw [List.map_cons, List.lookup_cons, List.lookup_cons]
    by_cases h : key = entry.1
    · simp [h]
    · rw [beq_false_of_ne h]
      exact ih

@[simp] lemma peek_map (f : α → β) (c : Cache κ α) (key : κ) :
    (c.map f).peek key = (c.peek key).map f := by
  rw [peek, peek, lookup_map]
  cases c.slots.lookup key <;> rfl

lemma map_touch (f : α → β) (c : Cache κ α) (key : κ) :
    (c.touch key).map f = (c.map f).touch key := by
  rw [touch, touch, lookup_map]
  cases c.slots.lookup key <;> rfl

lemma map_fill (f : α → β) (c : Cache κ α) (key : κ) (value : α) :
    (c.fill key value).map f = (c.map f).fill key (f value) := by
  unfold map fill
  rw [List.map_map, List.map_map]
  refine congrArg Cache.mk (List.map_congr_left fun entry _ => ?_)
  simp only [Function.comp_apply]
  split_ifs <;> rfl

lemma map_settle (f : α → β) (c : Cache κ α) (key : κ) (result : Except ε α) :
    (c.settle key result).map f = (c.map f).settle key (result.map f) := by
  cases result with
  | error e => exact map_touch f c key
  | ok value => exact (map_fill f _ key value).trans (by rw [map_touch]; rfl)

/-! ### Values in cells of their own -/

/-- Different keys hold different cells, out of so many. -/
structure Apart (c : Cache κ (Cell α)) (cells : Nat) : Prop where
  lt : ∀ key v, c.peek key = some v → v.address < cells
  key_eq : ∀ key key' v v', c.peek key = some v → c.peek key' = some v' →
    v.address = v'.address → key = key'

lemma apart_empty : Apart (empty : Cache κ (Cell α)) 0 := ⟨by simp, by simp⟩

/-- A value that is computed goes to a cell that no key holds yet. -/
lemma Apart.settle {c : Cache κ (Cell α)} {cells : Nat} (h : c.Apart cells) (key : κ)
    (result : Except ε α) :
    let allocated := (Cell.allocate result).run cells
    (c.settle key allocated.1).Apart allocated.2 := by
  cases result with
  | error e =>
    refine ⟨fun k v => ?_, fun k k' v v' => ?_⟩
    · rw [Cell.allocate_error, peek_settle_error]
      exact h.lt k v
    · rw [Cell.allocate_error, peek_settle_error, peek_settle_error]
      exact h.key_eq k k' v v'
  | ok value =>
    rw [Cell.allocate_ok]
    refine ⟨fun k v hv => ?_, fun k k' v v' hv hv' heq => ?_⟩
    · rw [peek_settle_ok] at hv
      split_ifs at hv with hk
      · obtain rfl := Option.some.inj hv
        exact Nat.lt_succ_self cells
      · exact Nat.lt_succ_of_lt (h.lt k v hv)
    · rw [peek_settle_ok] at hv hv'
      split_ifs at hv hv' with hk hk' hk'
      · rw [hk, hk']
      · obtain rfl := Option.some.inj hv
        exact absurd heq (Nat.ne_of_gt (h.lt k' v' hv'))
      · obtain rfl := Option.some.inj hv'
        exact absurd heq (Nat.ne_of_lt (h.lt k v hv))
      · exact h.key_eq k k' v v' hv hv' heq

end Cache

end TagVersion
