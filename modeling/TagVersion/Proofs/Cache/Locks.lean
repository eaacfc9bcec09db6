import TagVersion.Proofs.Cache.Turns

/-!
Who holds the lock of a slot: just the thread whose phase says so. So two threads never work on one
slot at a time.
-/

namespace TagVersion.Cache

variable {τ κ α ε : Type}

/-- The slot whose lock a thread in this phase holds. -/
def Phase.holds? : Phase κ α ε → Option κ
  | .inSlot key _ => some key
  | .computing key _ => some key
  | .storing key _ => some key
  | .leaving key _ => some key
  | .looking key _ _ _ => some key
  | .idle | .inTable _ | .atSlot _ _ | .counting _ _ _ => none

namespace Shared

variable {order : Listing κ} {s : Shared τ κ α ε} {t u : τ} {key : κ} {e : Effect κ α ε}
  {thread thread' : Thread κ α ε}

/-- Slots are held by the threads whose phases say so. -/
def Held (s : Shared τ κ α ε) : Prop :=
  ∀ t key, s.slotHolder key = some t ↔ (s.threads t).phase.holds? = some key

lemma Held.unique (h : Held s) (ht : (s.threads t).phase.holds? = some key)
    (hu : (s.threads u).phase.holds? = some key) : t = u :=
  Option.some.inj (((h t key).mpr ht).symm.trans ((h u key).mpr hu))

lemma Held.of_same (h : Held s) {s' : Shared τ κ α ε} (hslots : s'.slotHolder = s.slotHolder)
    (hthreads : ∀ u, (s'.threads u).phase.holds? = (s.threads u).phase.holds?) : Held s' := by
  intro u key
  rw [hslots, hthreads]
  exact h u key

variable [DecidableEq κ]

/-- Only taking a lock and giving it back change what a thread holds. -/
lemma Turn.holds (h : Turn order s thread e thread') :
    match e with
    | .lock key =>
      s.slotHolder key = none ∧ thread.phase.holds? = none ∧ thread'.phase.holds? = some key
    | .unlock key => thread.phase.holds? = some key ∧ thread'.phase.holds? = none
    | _ => thread'.phase.holds? = thread.phase.holds? := by
  cases h with
  | lock hfree => exact ⟨hfree, rfl, rfl⟩
  | lockNext hfree => exact ⟨hfree, rfl, rfl⟩
  | leave => exact ⟨rfl, rfl⟩
  | count => exact ⟨rfl, rfl⟩
  | _ => rfl

variable [DecidableEq τ]

lemma Held.lock (h : Held s) (hfree : s.slotHolder key = none)
    (hbefore : (s.threads t).phase.holds? = none) (hafter : thread'.phase.holds? = some key) :
    Held (s.after t (.lock key) thread') := by
  intro u k
  show update s.slotHolder key (some t) k = some u ↔ _
  by_cases hu : u = t <;> by_cases hk : k = key
  · subst hu hk
    simpa using hafter
  · subst hu
    have hnot : s.slotHolder k ≠ some u := fun heq => by
      have := (h u k).mp heq
      simp [hbefore] at this
    simpa [update_of_ne hk, hnot, hafter] using fun heq => hk heq.symm
  · subst hk
    have hnot : (s.threads u).phase.holds? ≠ some k := fun heq => by
      have := (h u k).mpr heq
      simp [hfree] at this
    simpa [threads_after_of_ne hu, hnot] using fun heq => hu heq.symm
  · simpa [threads_after_of_ne hu, update_of_ne hk] using h u k

lemma Held.unlock (h : Held s) (hbefore : (s.threads t).phase.holds? = some key)
    (hafter : thread'.phase.holds? = none) : Held (s.after t (.unlock key) thread') := by
  intro u k
  show update s.slotHolder key none k = some u ↔ _
  by_cases hu : u = t <;> by_cases hk : k = key
  · subst hu hk
    simp [hafter]
  · subst hu
    have hnot : s.slotHolder k ≠ some u := fun heq => by
      have := (h u k).mp heq
      rw [hbefore] at this
      exact hk (Option.some.inj this).symm
    simp [update_of_ne hk, hnot, hafter]
  · subst hk
    have hnot : (s.threads u).phase.holds? ≠ some k := fun heq => hu (h.unique heq hbefore)
    simp [threads_after_of_ne hu, hnot]
  · simpa [threads_after_of_ne hu, update_of_ne hk] using h u k

lemma Held.turn (h : Held s) (hturn : Turn order s (s.threads t) e thread') :
    Held (s.after t e thread') := by
  have hholds := hturn.holds
  have hsame : thread'.phase.holds? = (s.threads t).phase.holds? → ∀ u,
      ((s.after t e thread').threads u).phase.holds? = (s.threads u).phase.holds? := by
    intro heq u
    by_cases hu : u = t
    · rw [hu, threads_after_self, heq]
    · rw [threads_after_of_ne hu]
  cases e with
  | lock key => exact h.lock hholds.1 hholds.2.1 hholds.2.2
  | unlock key => exact h.unlock hholds.1 hholds.2
  | _ => exact h.of_same rfl (hsame hholds)

/-- **Slots are held by the threads whose phases say so**, after any schedule. -/
theorem held_run (order : Listing κ) (cache : Cache κ α) (calls : τ → List (Call κ α ε))
    (schedule : List τ) : Held ((start cache calls).run order schedule) := by
  refine run_induction (fun t key => ?_) (fun s t e thread' h hturn => h.turn hturn) schedule
  simp [start, Phase.holds?]

end Shared

end TagVersion.Cache
