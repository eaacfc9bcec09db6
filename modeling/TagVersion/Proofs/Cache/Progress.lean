import TagVersion.Proofs.Cache.Calls

/-!
Threads do not block each other for good. A thread that holds a lock, be it the table's or a slot's,
needs no other lock until it has given that one back, and so has a next step. A thread without a
next step is through with its calls, or awaits a lock whose holder has a next step.
-/

namespace TagVersion.Cache

variable {τ κ α ε : Type}

/-- Whether a thread in this phase holds the table's lock. -/
def Phase.holdsTable : Phase κ α ε → Bool
  | .inTable _ => true
  | .idle | .atSlot _ _ | .inSlot _ _ | .computing _ _ | .storing _ _ | .leaving _ _
  | .counting _ _ _ | .looking _ _ _ _ => false

namespace Shared

variable {order : Listing κ} {s : Shared τ κ α ε} {t u : τ} {key : κ} {e : Effect κ α ε}
  {thread thread' : Thread κ α ε}

/-- The table is held by the thread whose phase says so. -/
def TableHeld (s : Shared τ κ α ε) : Prop :=
  ∀ t, s.tableHolder = some t ↔ (s.threads t).phase.holdsTable = true

lemma TableHeld.unique (h : TableHeld s) (ht : (s.threads t).phase.holdsTable = true)
    (hu : (s.threads u).phase.holdsTable = true) : t = u :=
  Option.some.inj (((h t).mpr ht).symm.trans ((h u).mpr hu))

/-- A thread needs a lock that another holds. -/
inductive Awaits (s : Shared τ κ α ε) (t u : τ) : Prop where
  | table {call calls} : (s.threads t).phase = .idle → (s.threads t).calls = call :: calls →
      s.tableHolder = some u → s.Awaits t u
  | slot {key compute} : (s.threads t).phase = .atSlot key compute →
      s.slotHolder key = some u → s.Awaits t u
  | nextSlot {key rest count last} : (s.threads t).phase = .counting (key :: rest) count last →
      s.slotHolder key = some u → s.Awaits t u

variable [DecidableEq κ]

lemma Turn.table (h : Turn order s thread e thread') :
    match e with
    | .takeTable => s.tableHolder = none ∧ thread'.phase.holdsTable = true
    | .leaveTable | .enter _ =>
      thread.phase.holdsTable = true ∧ thread'.phase.holdsTable = false
    | _ => thread.phase.holdsTable = false ∧ thread'.phase.holdsTable = false := by
  cases h with
  | begin hfree => exact ⟨hfree, rfl⟩
  | _ => exact ⟨rfl, rfl⟩

variable [DecidableEq τ]

lemma TableHeld.take (h : TableHeld s) (hfree : s.tableHolder = none)
    (hafter : thread'.phase.holdsTable = true) : TableHeld (s.after t .takeTable thread') := by
  intro u
  show some t = some u ↔ _
  by_cases hu : u = t
  · subst hu
    simp [hafter]
  · have hnot : ¬ (s.threads u).phase.holdsTable = true := fun hholds => by
      have hheld := (h u).mpr hholds
      simp [hfree] at hheld
    rw [threads_after_of_ne hu]
    exact iff_of_false (fun heq => hu (Option.some.inj heq).symm) hnot

lemma TableHeld.leave (h : TableHeld s) (hbefore : (s.threads t).phase.holdsTable = true)
    (hafter : thread'.phase.holdsTable = false) (he : (s.affect t e).tableHolder = none) :
    TableHeld (s.after t e thread') := by
  intro u
  show (s.affect t e).tableHolder = some u ↔ _
  rw [he]
  by_cases hu : u = t
  · subst hu
    simp [hafter]
  · rw [threads_after_of_ne hu]
    exact iff_of_false nofun fun hholds => hu (h.unique hholds hbefore)

lemma TableHeld.stay (h : TableHeld s) (hbefore : (s.threads t).phase.holdsTable = false)
    (hafter : thread'.phase.holdsTable = false)
    (he : (s.affect t e).tableHolder = s.tableHolder) : TableHeld (s.after t e thread') := by
  intro u
  show (s.affect t e).tableHolder = some u ↔ _
  rw [he, h u]
  by_cases hu : u = t
  · subst hu
    rw [threads_after_self, hbefore, hafter]
  · rw [threads_after_of_ne hu]

lemma TableHeld.turn (h : TableHeld s) (hturn : Turn order s (s.threads t) e thread') :
    TableHeld (s.after t e thread') := by
  have htable := hturn.table
  cases e with
  | takeTable => exact h.take htable.1 htable.2
  | leaveTable | enter => exact h.leave htable.1 htable.2 rfl
  | _ => exact h.stay htable.1 htable.2 rfl

theorem tableHeld_run (order : Listing κ) (cache : Cache κ α) (calls : τ → List (Call κ α ε))
    (schedule : List τ) : TableHeld ((start cache calls).run order schedule) := by
  refine run_induction (fun t => ?_) (fun s t e thread' h hturn => h.turn hturn) schedule
  simp [start, Phase.holdsTable]

/-! ### Who has a next step -/

/-- **A lock's holder has a next step:** it needs no second lock while it holds one. -/
theorem exists_step_of_holds (order : Listing κ)
    (h : (s.threads t).phase.holdsTable = true ∨ (s.threads t).phase.holds?.isSome) :
    ∃ s', s.step? order t = some s' := by
  unfold step?
  generalize (s.threads t).phase = phase at h
  cases phase with
  | inTable | inSlot | computing | storing | leaving | looking => exact ⟨_, rfl⟩
  | idle | atSlot | counting => simp [Phase.holdsTable, Phase.holds?] at h

lemma Awaits.exists_step (h : s.Awaits t u) (htable : TableHeld s) (hslots : Held s)
    (order : Listing κ) : ∃ s', s.step? order u = some s' := by
  have hslot : ∀ key, s.slotHolder key = some u → ∃ s', s.step? order u = some s' := by
    intro key hholder
    refine exists_step_of_holds order (.inr ?_)
    rw [(hslots u key).mp hholder]
    rfl
  cases h with
  | table _ _ hholder => exact exists_step_of_holds order (.inl ((htable u).mp hholder))
  | slot _ hholder => exact hslot _ hholder
  | nextSlot _ hholder => exact hslot _ hholder

/-- A thread without a next step is through with its calls, or awaits a lock. -/
lemma done_or_awaits (h : s.step? order t = none) :
    ((s.threads t).phase = .idle ∧ (s.threads t).calls = []) ∨ ∃ u, s.Awaits t u := by
  unfold step? at h
  cases hphase : (s.threads t).phase with
  | idle =>
    cases hcalls : (s.threads t).calls with
    | nil => exact .inl ⟨rfl, rfl⟩
    | cons call calls =>
      cases hholder : s.tableHolder with
      | none => simp [hphase, begin, hcalls, hholder] at h
      | some u => exact .inr ⟨u, .table hphase hcalls hholder⟩
  | atSlot key compute =>
    cases hholder : s.slotHolder key with
    | none => simp [hphase, lockSlot, hholder] at h
    | some u => exact .inr ⟨u, .slot hphase hholder⟩
  | counting rest count last =>
    cases rest with
    | nil => simp [hphase] at h
    | cons key rest =>
      cases hholder : s.slotHolder key with
      | none => simp [hphase, lockSlot, hholder] at h
      | some u => exact .inr ⟨u, .nextSlot hphase hholder⟩
  | inTable | inSlot | computing | storing | leaving | looking => simp [hphase] at h

lemma step?_of_done (hphase : (s.threads t).phase = .idle) (hcalls : (s.threads t).calls = []) :
    s.step? order t = none := by
  simp [step?, hphase, begin, hcalls]

/-- A call has not been answered just as long as the thread is at work or has calls to make. -/
lemma Lane.unanswered_iff {calls : List (Call κ α ε)} {past : List (Returned κ α ε)}
    {current : List (Call κ α ε)} {now : List (Event τ κ α ε)}
    (h : Lane calls s t past current now) :
    (s.threads t).replies.length < calls.length ↔
      ¬ ((s.threads t).phase = .idle ∧ (s.threads t).calls = []) := by
  have hlength : calls.length =
      (s.threads t).replies.length + (current.length + (s.threads t).calls.length) := by
    rw [h.calls, h.replies]
    simp
  have hidle : (s.threads t).phase = .idle ↔ current = [] := by
    have hserves := h.serves
    generalize (s.threads t).phase = phase at hserves
    cases hserves <;> simp
  rw [hidle, ← List.length_eq_zero_iff, ← List.length_eq_zero_iff]
  omega

/-- **No deadlock.** Threads make any calls, and take their steps in any order. Some thread has a
next step just as long as some call has not been answered; and a thread with a call that has not
been answered has a next step itself, or awaits a lock whose holder has one. -/
theorem exists_step_iff (order : Listing κ) (calls : τ → List (Call κ α ε))
    (schedule : List τ) :
    let s := (start Cache.empty calls).run order schedule
    ((∃ t s', s.step? order t = some s') ↔
      ∃ t, (s.threads t).replies.length < (calls t).length) ∧
    ∀ t, (s.threads t).replies.length < (calls t).length →
      (∃ s', s.step? order t = some s') ∨
        ∃ u, s.Awaits t u ∧ ∃ s', s.step? order u = some s' := by
  intro s
  have htable : TableHeld s := tableHeld_run order Cache.empty calls schedule
  have hslots : Held s := held_run order Cache.empty calls schedule
  have hunanswered : ∀ t, (s.threads t).replies.length < (calls t).length ↔
      ¬ ((s.threads t).phase = .idle ∧ (s.threads t).calls = []) := by
    intro t
    obtain ⟨past, current, now, hlane⟩ := lane_run order calls schedule t
    exact hlane.unanswered_iff
  have hnext : ∀ t, (s.threads t).replies.length < (calls t).length →
      (∃ s', s.step? order t = some s') ∨
        ∃ u, s.Awaits t u ∧ ∃ s', s.step? order u = some s' := by
    intro t ht
    cases hstep : s.step? order t with
    | some s' => exact .inl ⟨s', rfl⟩
    | none =>
      obtain ⟨u, hu⟩ := (done_or_awaits hstep).resolve_left ((hunanswered t).mp ht)
      exact .inr ⟨u, hu, hu.exists_step htable hslots order⟩
  refine ⟨⟨?_, ?_⟩, hnext⟩
  · rintro ⟨t, s', hstep⟩
    refine ⟨t, (hunanswered t).mpr ?_⟩
    rintro ⟨hphase, hcalls⟩
    rw [step?_of_done hphase hcalls] at hstep
    simp at hstep
  · rintro ⟨t, ht⟩
    rcases hnext t ht with ⟨s', hstep⟩ | ⟨u, -, s', hstep⟩
    · exact ⟨t, s', hstep⟩
    · exact ⟨u, s', hstep⟩

/-- Two threads get the value of one key, where the first has begun to compute it. -/
theorem exists_step_iff_contended :
    let calls : Bool → List (Call Nat String Unit) := fun _ => [.get 7 (.ok "v"), .size]
    let s := (start Cache.empty calls).run (.newestFirst Nat)
      [false, false, true, true, false, false]
    (s.threads true).replies.length < (calls true).length ∧
      s.step? (.newestFirst Nat) true = none ∧ s.Awaits true false ∧
      ∃ s', s.step? (.newestFirst Nat) false = some s' := by
  intro calls s
  have hlt : (s.threads true).replies.length < (calls true).length := by decide
  have hnone : s.step? (.newestFirst Nat) true = none := rfl
  obtain ⟨-, hnext⟩ := exists_step_iff (.newestFirst Nat) calls
    [false, false, true, true, false, false]
  have hstuck : ¬ ∃ s', s.step? (.newestFirst Nat) true = some s' := by simp [hnone]
  obtain ⟨u, hawaits, hstep⟩ := (hnext true hlt).resolve_left hstuck
  cases u with
  | true => exact absurd hstep hstuck
  | false => exact ⟨hlt, hnone, hawaits, hstep⟩

end Shared

end TagVersion.Cache
