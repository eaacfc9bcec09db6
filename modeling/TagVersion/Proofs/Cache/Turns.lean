import TagVersion.Cache.Threads
import TagVersion.Proofs.Cache.Slots

/-!
What one step of a thread can do, said once. A turn takes a thread from one record to the next and
has an effect on what the threads share; `step_cases` finds the turn behind every step. What holds
of a state, and after every turn, holds after every schedule.
-/

namespace TagVersion.Cache

/-- What a turn does to what the threads share. -/
inductive Effect (κ α ε : Type) where
  | nothing
  | takeTable
  | leaveTable
  /-- Leaves the table, in which the key has a slot now. -/
  | enter (key : κ)
  | lock (key : κ)
  | unlock (key : κ)
  | start (key : κ)
  | finish (key : κ) (result : Except ε α)
  | fill (key : κ) (value : α)

/-- Whether an effect leaves values and the past alone. -/
def Effect.IsQuiet {κ α ε : Type} : Effect κ α ε → Prop
  | .start _ | .finish _ _ | .fill _ _ => False
  | .nothing | .takeTable | .leaveTable | .enter _ | .lock _ | .unlock _ => True

namespace Shared

variable {τ κ α ε : Type} [DecidableEq κ] {order : Listing κ} {s s' : Shared τ κ α ε} {t : τ}
  {key : κ} {e : Effect κ α ε}

/-- What the threads share after the effect of a turn of `t`. -/
def affect (s : Shared τ κ α ε) (t : τ) : Effect κ α ε → Shared τ κ α ε
  | .nothing => s
  | .takeTable => { s with tableHolder := some t }
  | .leaveTable => { s with tableHolder := none }
  | .enter key => { s with tableHolder := none, cache := s.cache.touch key }
  | .lock key => { s with slotHolder := update s.slotHolder key (some t) }
  | .unlock key => { s with slotHolder := update s.slotHolder key none }
  | .start key => { s with history := .started t key :: s.history }
  | .finish key result => { s with history := .ended t key result :: s.history }
  | .fill key value => { s with cache := s.cache.fill key value }

lemma peek_affect (he : e.IsQuiet) (s : Shared τ κ α ε) (t : τ) (key : κ) :
    (s.affect t e).cache.peek key = s.cache.peek key := by
  cases e with
  | enter => exact peek_touch _ _
  | start | finish | fill => exact he.elim
  | _ => rfl

lemma has_affect (h : s.cache.Has key) (e : Effect κ α ε) (t : τ) :
    (s.affect t e).cache.Has key := by
  cases e with
  | enter => exact has_touch_iff.mpr (.inr h)
  | fill => exact has_fill_iff.mpr h
  | _ => exact h

lemma history_affect (he : e.IsQuiet) (s : Shared τ κ α ε) (t : τ) :
    (s.affect t e).history = s.history := by
  cases e with
  | start | finish | fill => exact he.elim
  | _ => rfl

/-- The turns that a thread can take. -/
inductive Turn (order : Listing κ) (s : Shared τ κ α ε) :
    Thread κ α ε → Effect κ α ε → Thread κ α ε → Prop where
  | begin {call calls replies} : s.tableHolder = none →
      Turn order s ⟨.idle, call :: calls, replies⟩ .takeTable ⟨.inTable call, calls, replies⟩
  | get {key result calls replies} :
      Turn order s ⟨.inTable (.get key result), calls, replies⟩ (.enter key)
        ⟨.atSlot key (some result), calls, replies⟩
  | peek {key calls replies} : s.cache.Has key →
      Turn order s ⟨.inTable (.peek key), calls, replies⟩ .leaveTable
        ⟨.atSlot key none, calls, replies⟩
  | peekNone {key calls replies} : ¬ s.cache.Has key →
      Turn order s ⟨.inTable (.peek key), calls, replies⟩ .leaveTable
        ⟨.idle, calls, replies ++ [.stored none]⟩
  | size {calls replies} :
      Turn order s ⟨.inTable .size, calls, replies⟩ .leaveTable
        ⟨.counting (order.keys (s.cache.slots.map (·.1))) 0 .size, calls, replies⟩
  | isEmpty {calls replies} :
      Turn order s ⟨.inTable .isEmpty, calls, replies⟩ .leaveTable
        ⟨.counting (order.keys (s.cache.slots.map (·.1))) 0 fun count => .isEmpty (count == 0),
          calls, replies⟩
  | lock {key compute calls replies} : s.slotHolder key = none →
      Turn order s ⟨.atSlot key compute, calls, replies⟩ (.lock key)
        ⟨.inSlot key compute, calls, replies⟩
  | look {key calls replies} :
      Turn order s ⟨.inSlot key none, calls, replies⟩ .nothing
        ⟨.leaving key (.stored (s.cache.peek key)), calls, replies⟩
  | hit {key value result calls replies} : s.cache.peek key = some value →
      Turn order s ⟨.inSlot key (some result), calls, replies⟩ .nothing
        ⟨.leaving key (.result (.ok value)), calls, replies⟩
  | miss {key result calls replies} : s.cache.peek key = none →
      Turn order s ⟨.inSlot key (some result), calls, replies⟩ (.start key)
        ⟨.computing key result, calls, replies⟩
  | succeed {key value calls replies} :
      Turn order s ⟨.computing key (.ok value), calls, replies⟩ (.finish key (.ok value))
        ⟨.storing key value, calls, replies⟩
  | fail {key error calls replies} :
      Turn order s ⟨.computing key (.error error), calls, replies⟩ (.finish key (.error error))
        ⟨.leaving key (.result (.error error)), calls, replies⟩
  | store {key value calls replies} :
      Turn order s ⟨.storing key value, calls, replies⟩ (.fill key value)
        ⟨.leaving key (.result (.ok value)), calls, replies⟩
  | leave {key reply calls replies} :
      Turn order s ⟨.leaving key reply, calls, replies⟩ (.unlock key)
        ⟨.idle, calls, replies ++ [reply]⟩
  | counted {count last calls replies} :
      Turn order s ⟨.counting [] count last, calls, replies⟩ .nothing
        ⟨.idle, calls, replies ++ [last count]⟩
  | lockNext {key rest count last calls replies} : s.slotHolder key = none →
      Turn order s ⟨.counting (key :: rest) count last, calls, replies⟩ (.lock key)
        ⟨.looking key rest count last, calls, replies⟩
  | count {key rest count last calls replies} :
      Turn order s ⟨.looking key rest count last, calls, replies⟩ (.unlock key)
        ⟨.counting rest (if (s.cache.peek key).isSome then count + 1 else count) last,
          calls, replies⟩

variable {thread thread' : Thread κ α ε} {value : α}

/-! What the turns that are not quiet begin and end with. -/

lemma Turn.of_start (h : Turn order s thread (.start key) thread') :
    s.cache.peek key = none ∧ ∃ result, thread.phase = .inSlot key (some result) ∧
      thread'.phase = .computing key result := by
  cases h with
  | miss hpeek => exact ⟨hpeek, _, rfl, rfl⟩

lemma Turn.of_succeed (h : Turn order s thread (.finish key (.ok value)) thread') :
    thread.phase = .computing key (.ok value) ∧ thread'.phase = .storing key value := by
  cases h with
  | succeed => exact ⟨rfl, rfl⟩

lemma Turn.of_fail {error : ε} (h : Turn order s thread (.finish key (.error error)) thread') :
    thread.phase = .computing key (.error error) ∧
      thread'.phase = .leaving key (.result (.error error)) := by
  cases h with
  | fail => exact ⟨rfl, rfl⟩

lemma Turn.of_fill (h : Turn order s thread (.fill key value) thread') :
    thread.phase = .storing key value ∧ thread'.phase = .leaving key (.result (.ok value)) := by
  cases h with
  | store => exact ⟨rfl, rfl⟩

lemma lockSlot_eq_some_iff : s.lockSlot t key = some s' ↔
    s.slotHolder key = none ∧ { s with slotHolder := update s.slotHolder key (some t) } = s' := by
  unfold lockSlot
  cases s.slotHolder key <;> simp

variable [DecidableEq τ]

/-- The state after a turn of `t`. -/
def after (s : Shared τ κ α ε) (t : τ) (e : Effect κ α ε) (thread : Thread κ α ε) :
    Shared τ κ α ε :=
  { s.affect t e with threads := update s.threads t thread }

@[simp] lemma threads_after_self (s : Shared τ κ α ε) (t : τ) (e : Effect κ α ε)
    (thread : Thread κ α ε) : (s.after t e thread).threads t = thread := update_self _ _ _

lemma threads_after_of_ne {u : τ} (h : u ≠ t) (s : Shared τ κ α ε) (e : Effect κ α ε)
    (thread : Thread κ α ε) : (s.after t e thread).threads u = s.threads u := update_of_ne h _ _

@[simp] lemma cache_after (s : Shared τ κ α ε) (t : τ) (e : Effect κ α ε)
    (thread : Thread κ α ε) : (s.after t e thread).cache = (s.affect t e).cache := rfl

@[simp] lemma history_after (s : Shared τ κ α ε) (t : τ) (e : Effect κ α ε)
    (thread : Thread κ α ε) : (s.after t e thread).history = (s.affect t e).history := rfl

/-- **Every step is a turn.** -/
theorem step_cases (h : s.step? order t = some s') :
    ∃ e thread', Turn order s (s.threads t) e thread' ∧
      s' = s.after t e thread' := by
  unfold step? at h
  cases hthread : s.threads t with
  | mk phase calls replies =>
    simp only [hthread] at h
    cases phase with
    | idle =>
      unfold begin at h
      simp only [hthread] at h
      cases calls with
      | nil => simp at h
      | cons call calls =>
        cases htable : s.tableHolder with
        | some => simp [htable] at h
        | none =>
          rw [htable] at h
          exact ⟨_, _, .begin htable, (Option.some.inj h).symm⟩
    | inTable call =>
      obtain rfl := Option.some.inj h
      cases call with
      | get key result => exact ⟨_, _, .get, by simp [inTable, move, after, affect, hthread]⟩
      | peek key =>
        by_cases hkey : s.cache.Has key
        · obtain ⟨slot, hslot⟩ := Option.isSome_iff_exists.mp hkey
          exact ⟨_, _, .peek hkey, by simp [inTable, move, after, affect, hthread, hslot]⟩
        · exact ⟨_, _, .peekNone hkey,
            by simp [inTable, reply, after, affect, hthread, lookup_of_not_has hkey]⟩
      | size => exact ⟨_, _, .size, by simp [inTable, move, after, affect, hthread]⟩
      | isEmpty => exact ⟨_, _, .isEmpty, by simp [inTable, move, after, affect, hthread]⟩
    | atSlot key compute =>
      obtain ⟨locked, hlocked, rfl⟩ := Option.map_eq_some_iff.mp h
      obtain ⟨hfree, rfl⟩ := lockSlot_eq_some_iff.mp hlocked
      exact ⟨_, _, .lock hfree, by simp [move, after, affect, hthread]⟩
    | inSlot key compute =>
      obtain rfl := Option.some.inj h
      cases compute with
      | none => exact ⟨_, _, .look, by simp [inSlot, move, after, affect, hthread]⟩
      | some result =>
        cases hpeek : s.cache.peek key with
        | none => exact ⟨_, _, .miss hpeek, by simp [inSlot, move, after, affect, hthread, hpeek]⟩
        | some value => exact ⟨_, _, .hit hpeek, by simp [inSlot, move, after, affect, hthread, hpeek]⟩
    | computing key result =>
      obtain rfl := Option.some.inj h
      cases result with
      | ok value => exact ⟨_, _, .succeed, by simp [computed, move, after, affect, hthread]⟩
      | error error => exact ⟨_, _, .fail, by simp [computed, move, after, affect, hthread]⟩
    | storing key value =>
      obtain rfl := Option.some.inj h
      exact ⟨_, _, .store, by simp [move, after, affect, hthread]⟩
    | leaving key r =>
      obtain rfl := Option.some.inj h
      exact ⟨_, _, .leave, by simp [reply, unlockSlot, after, affect, hthread]⟩
    | counting rest count last =>
      cases rest with
      | nil =>
        obtain rfl := Option.some.inj h
        exact ⟨_, _, .counted, by simp [reply, after, affect, hthread]⟩
      | cons key rest =>
        obtain ⟨locked, hlocked, rfl⟩ := Option.map_eq_some_iff.mp h
        obtain ⟨hfree, rfl⟩ := lockSlot_eq_some_iff.mp hlocked
        exact ⟨_, _, .lockNext hfree, by simp [move, after, affect, hthread]⟩
    | looking key rest count last =>
      obtain rfl := Option.some.inj h
      exact ⟨_, _, .count, by simp [move, unlockSlot, after, affect, hthread]⟩

/-- What holds before, and after every turn if it holds before that turn, holds after any
schedule. -/
theorem run_induction {P : Shared τ κ α ε → Prop} (h : P s)
    (hturn : ∀ s t e thread', P s → Turn order s (s.threads t) e thread' →
      P (s.after t e thread')) (schedule : List τ) :
    P (s.run order schedule) := by
  induction schedule generalizing s with
  | nil => exact h
  | cons t schedule ih =>
    refine ih (s := (s.step? order t).getD s) ?_
    cases hstep : s.step? order t with
    | none => exact h
    | some s' =>
      obtain ⟨e, thread', hmove, rfl⟩ := step_cases hstep
      exact hturn s t e thread' h hmove

end Shared

end TagVersion.Cache
