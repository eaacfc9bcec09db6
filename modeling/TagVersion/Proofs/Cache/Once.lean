import Mathlib.Data.List.Pairwise
import TagVersion.Proofs.Cache.Locks

/-!
A key's value is computed once. The computations of a key that have succeeded are at most one; it is
that one's value that the slot holds, or that the thread at work on the slot is about to put there.
No computation starts after it. The invariant `Memo` ties the slots to the past and to the phases
of the threads.
-/

namespace TagVersion.Cache

variable {τ κ α ε : Type}

namespace Event

/-- The value that a computation for a key has come to. -/
def success? [DecidableEq κ] (key : κ) : Event τ κ α ε → Option α
  | .ended _ k (.ok value) => if k = key then some value else none
  | _ => none

/-- A computation for a key starts. -/
def Starts (key : κ) : Event τ κ α ε → Prop
  | .started _ k => k = key
  | .ended .. => False

/-- A computation for a key succeeds. -/
def Succeeds (key : κ) : Event τ κ α ε → Prop
  | .ended _ k (.ok _) => k = key
  | _ => False

lemma success?_ne_none [DecidableEq κ] {key : κ} {event : Event τ κ α ε} (h : event.Succeeds key) :
    event.success? key ≠ none := by
  match event, h with
  | .ended _ k (.ok value), h => simp [success?, show k = key from h]

end Event

/-- The slot that a thread has found, or is at work on, to get its value. -/
def Phase.getsAt? : Phase κ α ε → Option κ
  | .atSlot key (some _) => some key
  | .inSlot key (some _) => some key
  | .computing key _ => some key
  | .storing key _ => some key
  | _ => none

namespace Shared

/-- Another thread does not store while one holds the slot. -/
lemma Held.not_storing {s : Shared τ κ α ε} {t u : τ} {key : κ} (h : Held s)
    (ht : (s.threads t).phase.holds? = some key) (hu : u ≠ t) (value : α) :
    (s.threads u).phase ≠ .storing key value := fun hstoring =>
  hu (h.unique (by rw [hstoring]; rfl) ht)

variable [DecidableEq κ]

/-- The values that computations for a key have come to, newest first. -/
def successes (s : Shared τ κ α ε) (key : κ) : List α := s.history.filterMap (Event.success? key)

/-- A thread computes the value of a key. -/
def Computes (s : Shared τ κ α ε) (t : τ) (key : κ) : Prop :=
  ∃ result, (s.threads t).phase = .computing key result

/-- What the slots hold, by what has been computed. -/
structure Memo (s : Shared τ κ α ε) : Prop where
  held : Held s
  room : ∀ t key, (s.threads t).phase.getsAt? = some key → s.cache.Has key
  computing : ∀ t key, s.Computes t key → s.cache.peek key = none
  storing : ∀ t key value, (s.threads t).phase = .storing key value →
    s.cache.peek key = none ∧ s.successes key = [value]
  stored : ∀ key, (∀ t value, (s.threads t).phase ≠ .storing key value) →
    s.successes key = (s.cache.peek key).toList
  ordered : ∀ key, s.history.Pairwise fun newer older =>
    ¬ (newer.Starts key ∧ older.Succeeds key)

variable {order : Listing κ} {s : Shared τ κ α ε} {t u : τ} {key : κ} {value : α}
  {e : Effect κ α ε} {thread thread' : Thread κ α ε}

/-- There is no value to be stored where a thread has looked and found none. -/
lemma Memo.successes_eq_nil (h : Memo s) (ht : (s.threads t).phase.holds? = some key)
    (hself : ∀ value, (s.threads t).phase ≠ .storing key value)
    (hpeek : s.cache.peek key = none) : s.successes key = [] := by
  rw [h.stored key fun u value => ?_, hpeek, Option.toList_none]
  by_cases hu : u = t
  · exact hu ▸ hself value
  · exact h.held.not_storing ht hu value

/-- **No more than one computation succeeds.** -/
theorem Memo.length_successes_le (h : Memo s) (key : κ) : (s.successes key).length ≤ 1 := by
  by_cases hstoring : ∃ t value, (s.threads t).phase = .storing key value
  · obtain ⟨t, value, hstoring⟩ := hstoring
    exact Nat.le_of_eq (congrArg List.length (h.storing t key value hstoring).2)
  · rw [h.stored key fun t value heq => hstoring ⟨t, value, heq⟩]
    cases s.cache.peek key <;> simp

/-- What is stored is what the one successful computation has come to. -/
lemma Memo.successes_of_peek (h : Memo s) (hpeek : s.cache.peek key = some value) :
    s.successes key = [value] := by
  rw [h.stored key fun t v hstoring => ?_, hpeek, Option.toList_some]
  simp [(h.storing t key v hstoring).1] at hpeek

/-! ### Turns -/

lemma Turn.of_quiet (h : Turn order s thread e thread') (he : e.IsQuiet) :
    (∀ key value, thread.phase ≠ .storing key value) ∧
      (∀ key result, thread'.phase ≠ .computing key result) ∧
      ∀ key value, thread'.phase ≠ .storing key value := by
  cases h with
  | miss | succeed | fail | store => exact he.elim
  | _ => simp

lemma Turn.room (h : Turn order s thread e thread') (t : τ)
    (hroom : thread.phase.getsAt? = some key → s.cache.Has key)
    (hkey : thread'.phase.getsAt? = some key) : (s.affect t e).cache.Has key := by
  cases h with
  | get =>
    obtain rfl := Option.some.inj hkey
    exact has_touch_iff.mpr (.inl rfl)
  | @lock k compute =>
    cases compute with
    | none => simp [Phase.getsAt?] at hkey
    | some => exact hroom hkey
  | miss => exact hroom hkey
  | succeed => exact hroom hkey
  | _ => simp [Phase.getsAt?] at hkey

variable [DecidableEq τ]

lemma Memo.room_turn (h : Memo s) (hturn : Turn order s (s.threads t) e thread') (u : τ)
    (hkey : ((s.after t e thread').threads u).phase.getsAt? = some key) :
    (s.affect t e).cache.Has key := by
  by_cases hu : u = t
  · rw [hu, threads_after_self] at hkey
    exact hturn.room t (h.room t key) hkey
  · rw [threads_after_of_ne hu] at hkey
    exact has_affect (h.room u key hkey) e t

/-- A turn that adds no value, neither to the past nor to a slot. -/
lemma Memo.of_same (h : Memo s) (hturn : Turn order s (s.threads t) e thread')
    (hpeek : ∀ k, (s.affect t e).cache.peek k = s.cache.peek k)
    (hsuccesses : ∀ k, (s.affect t e).successes k = s.successes k)
    (hordered : ∀ k, (s.affect t e).history.Pairwise fun newer older =>
      ¬ (newer.Starts k ∧ older.Succeeds k))
    (hbefore : ∀ k v, (s.threads t).phase ≠ .storing k v)
    (hcomputing : ∀ k r, thread'.phase = .computing k r → s.cache.peek k = none)
    (hstoring : ∀ k v, thread'.phase ≠ .storing k v) :
    Memo (s.after t e thread') := by
  refine ⟨h.held.turn hturn, fun u k => h.room_turn hturn u, fun u k hphase => ?_,
    fun u k v hphase => ?_, fun k hnone => ?_, hordered⟩
  · obtain ⟨result, hphase⟩ := hphase
    refine (hpeek k).trans ?_
    by_cases hu : u = t
    · exact hcomputing k result (by simpa [hu] using hphase)
    · rw [threads_after_of_ne hu] at hphase
      exact h.computing u k ⟨result, hphase⟩
  · by_cases hu : u = t
    · exact absurd (by simpa [hu] using hphase) (hstoring k v)
    · rw [threads_after_of_ne hu] at hphase
      obtain ⟨hnone, hone⟩ := h.storing u k v hphase
      exact ⟨(hpeek k).trans hnone, (hsuccesses k).trans hone⟩
  · refine ((hsuccesses k).trans (h.stored k fun u v hphase => ?_)).trans
      (congrArg Option.toList (hpeek k).symm)
    by_cases hu : u = t
    · exact hbefore k v (hu ▸ hphase)
    · exact hnone u v (by rwa [threads_after_of_ne hu])

lemma Memo.quiet (h : Memo s) (hturn : Turn order s (s.threads t) e thread') (he : e.IsQuiet) :
    Memo (s.after t e thread') := by
  obtain ⟨hbefore, hcomputing, hstoring⟩ := hturn.of_quiet he
  refine h.of_same hturn (peek_affect he s t) (fun k => ?_) (fun k => ?_) hbefore
    (fun k r heq => absurd heq (hcomputing k r)) hstoring
  · rw [successes, history_affect he, successes]
  · rw [history_affect he]
    exact h.ordered k

lemma Memo.start (h : Memo s) (hturn : Turn order s (s.threads t) (.start key) thread') :
    Memo (s.after t (.start key) thread') := by
  obtain ⟨hpeek, result, hbefore, hafter⟩ := hturn.of_start
  have hholds : (s.threads t).phase.holds? = some key := by rw [hbefore]; rfl
  -- nothing is stored and the thread holds the lock, so no computation has succeeded before
  have hnil := h.successes_eq_nil hholds (by simp [hbefore]) hpeek
  refine h.of_same hturn (fun k => rfl) (fun k => rfl) (fun k => ?_) (by simp [hbefore])
    (fun k r heq => ?_) (by simp [hafter])
  · refine List.pairwise_cons.mpr ⟨fun older hmem hboth => ?_, h.ordered k⟩
    obtain ⟨rfl, hsucceeds⟩ := hboth
    exact Event.success?_ne_none hsucceeds (List.filterMap_eq_nil_iff.mp hnil older hmem)
  · rw [hafter] at heq
    obtain ⟨rfl, -⟩ := Phase.computing.inj heq
    exact hpeek

lemma Memo.fail {error : ε} (h : Memo s)
    (hturn : Turn order s (s.threads t) (.finish key (.error error)) thread') :
    Memo (s.after t (.finish key (.error error)) thread') := by
  obtain ⟨hbefore, hafter⟩ := hturn.of_fail
  refine h.of_same hturn (fun k => rfl) (fun k => rfl) (fun k => ?_) (by simp [hbefore])
    (by simp [hafter]) (by simp [hafter])
  exact List.pairwise_cons.mpr ⟨fun older _ hboth => hboth.1, h.ordered k⟩

lemma Memo.succeed (h : Memo s)
    (hturn : Turn order s (s.threads t) (.finish key (.ok value)) thread') :
    Memo (s.after t (.finish key (.ok value)) thread') := by
  obtain ⟨hbefore, hafter⟩ := hturn.of_succeed
  have hholds : (s.threads t).phase.holds? = some key := by rw [hbefore]; rfl
  have hpeek := h.computing t key ⟨_, hbefore⟩
  have hnil := h.successes_eq_nil hholds (by simp [hbefore]) hpeek
  have hself : (s.affect t (.finish key (.ok value))).successes key = [value] := by
    simpa [successes, affect, Event.success?] using hnil
  have hother : ∀ k, k ≠ key →
      (s.affect t (.finish key (.ok value))).successes k = s.successes k := by
    intro k hk
    simp [successes, affect, Event.success?, Ne.symm hk]
  refine ⟨h.held.turn hturn, fun u k => h.room_turn hturn u, fun u k hphase => ?_,
    fun u k v hphase => ?_, fun k hnone => ?_, fun k => ?_⟩
  · obtain ⟨result, hphase⟩ := hphase
    by_cases hu : u = t
    · simp [hu, hafter] at hphase
    · rw [threads_after_of_ne hu] at hphase
      exact h.computing u k ⟨result, hphase⟩
  · by_cases hu : u = t
    · obtain ⟨rfl, rfl⟩ : key = k ∧ value = v := by simpa [hu, hafter] using hphase
      exact ⟨hpeek, hself⟩
    · rw [threads_after_of_ne hu] at hphase
      obtain ⟨hnone, hone⟩ := h.storing u k v hphase
      have hk : k ≠ key := fun heq => h.held.not_storing hholds hu v (heq ▸ hphase)
      exact ⟨hnone, (hother k hk).trans hone⟩
  · have hk : k ≠ key := fun heq => hnone t value (by simp [heq, hafter])
    refine (hother k hk).trans (h.stored k fun u v hphase => ?_)
    by_cases hu : u = t
    · simp [hu, hbefore] at hphase
    · exact hnone u v (by rwa [threads_after_of_ne hu])
  · exact List.pairwise_cons.mpr ⟨fun older _ hboth => hboth.1, h.ordered k⟩

lemma Memo.store (h : Memo s) (hturn : Turn order s (s.threads t) (.fill key value) thread') :
    Memo (s.after t (.fill key value) thread') := by
  obtain ⟨hbefore, hafter⟩ := hturn.of_fill
  have hholds : (s.threads t).phase.holds? = some key := by rw [hbefore]; rfl
  have hhas := h.room t key (by rw [hbefore]; rfl)
  obtain ⟨-, hone⟩ := h.storing t key value hbefore
  refine ⟨h.held.turn hturn, fun u k => h.room_turn hturn u, fun u k hphase => ?_,
    fun u k v hphase => ?_, fun k hnone => ?_, h.ordered⟩
  · obtain ⟨result, hphase⟩ := hphase
    by_cases hu : u = t
    · simp [hu, hafter] at hphase
    · rw [threads_after_of_ne hu] at hphase
      have hk : k ≠ key := by
        rintro rfl
        have huholds : (s.threads u).phase.holds? = some k := by rw [hphase]; rfl
        exact hu (h.held.unique huholds hholds)
      exact (peek_fill_of_ne hk value).trans (h.computing u k ⟨result, hphase⟩)
  · by_cases hu : u = t
    · simp [hu, hafter] at hphase
    · rw [threads_after_of_ne hu] at hphase
      obtain ⟨hnone, hone⟩ := h.storing u k v hphase
      have hk : k ≠ key := fun heq => h.held.not_storing hholds hu v (heq ▸ hphase)
      exact ⟨(peek_fill_of_ne hk value).trans hnone, hone⟩
  · by_cases hk : k = key
    · rw [hk]
      exact hone.trans (congrArg Option.toList (peek_fill_self hhas value).symm)
    · refine (h.stored k fun u v hphase => ?_).trans
        (congrArg Option.toList (peek_fill_of_ne hk value).symm)
      by_cases hu : u = t
      · rw [hu, hbefore] at hphase
        exact hk (Phase.storing.inj hphase).1.symm
      · exact hnone u v (by rwa [threads_after_of_ne hu])

lemma Memo.turn (h : Memo s) (hturn : Turn order s (s.threads t) e thread') :
    Memo (s.after t e thread') := by
  cases e with
  | start key => exact h.start hturn
  | finish key result =>
    cases result with
    | ok value => exact h.succeed hturn
    | error error => exact h.fail hturn
  | fill key value => exact h.store hturn
  | _ => exact h.quiet hturn trivial

omit [DecidableEq τ] in
lemma memo_start (calls : τ → List (Call κ α ε)) : Memo (start Cache.empty calls) where
  held t key := by simp [start, Phase.holds?]
  room t key h := by simp [start, Phase.getsAt?] at h
  computing t key h := rfl
  storing t key value h := by simp [start] at h
  stored key _ := rfl
  ordered key := .nil

/-- **What the slots hold is told by what has been computed**, after any schedule. -/
theorem memo_run (order : Listing κ) (calls : τ → List (Call κ α ε)) (schedule : List τ) :
    Memo ((start Cache.empty calls).run order schedule) :=
  run_induction (memo_start calls) (fun _ _ _ _ h hturn => h.turn hturn) schedule

end Shared

end TagVersion.Cache
