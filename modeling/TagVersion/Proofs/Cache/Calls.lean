import TagVersion.Proofs.Cache.Once

/-!
The calls of a thread, one after the other: what each returned, and which events of the past are its
own. A call that got a value got the stored one; a call that got an error ran its own computation,
once, and got that computation's error. No call sees another call's error.
-/

namespace TagVersion.Cache

variable {τ κ α ε : Type}

/-- A call that has returned, its reply, and whether its computation has run. -/
structure Returned (κ α ε : Type) where
  call : Call κ α ε
  reply : Reply α ε
  ran : Bool

namespace Returned

/-- What a returned call of a thread has left in the past, oldest first. -/
def events (t : τ) (r : Returned κ α ε) : List (Event τ κ α ε) :=
  match r.call, r.ran with
  | .get key result, true => [.started t key, .ended t key result]
  | _, _ => []

/-- A call to get a value is answered by the value that is stored, which is its own if its
computation has run; or by the error of its own computation, which then has run. -/
def Fair [DecidableEq κ] (c : Cache κ α) (r : Returned κ α ε) : Prop :=
  match r.call, r.reply with
  | .get key result, .result (.ok value) =>
    c.peek key = some value ∧ (r.ran = true → result = .ok value)
  | .get _ result, .result (.error error) => r.ran = true ∧ result = .error error
  | .get _ _, _ => False
  | _, _ => True

/-- Stored values are there to stay, so calls stay fair. -/
lemma Fair.mono [DecidableEq κ] {c c' : Cache κ α} {r : Returned κ α ε} (h : r.Fair c)
    (hkeep : ∀ key value, c.peek key = some value → c'.peek key = some value) : r.Fair c' := by
  obtain ⟨call, reply, ran⟩ := r
  match call, reply, h with
  | .get key result, .result (.ok value), h => exact ⟨hkeep key value h.1, h.2⟩
  | .get key result, .result (.error error), h => exact h
  | .peek _, _, _ => trivial
  | .size, _, _ => trivial
  | .isEmpty, _, _ => trivial

end Returned

/-- The thread of an event. -/
def Event.thread : Event τ κ α ε → τ
  | .started t _ => t
  | .ended t _ _ => t

/-- In a phase, a thread is at work on at most one call, which has left some events so far. -/
inductive Serves [DecidableEq κ] (c : Cache κ α) (t : τ) :
    Phase κ α ε → List (Call κ α ε) → List (Event τ κ α ε) → Prop where
  | idle : Serves c t .idle [] []
  | inTable {call} : Serves c t (.inTable call) [call] []
  | atSlotGet {key result} : Serves c t (.atSlot key (some result)) [.get key result] []
  | atSlotPeek {key} : Serves c t (.atSlot key none) [.peek key] []
  | inSlotGet {key result} : Serves c t (.inSlot key (some result)) [.get key result] []
  | inSlotPeek {key} : Serves c t (.inSlot key none) [.peek key] []
  | computing {key result} :
      Serves c t (.computing key result) [.get key result] [.started t key]
  | storing {key value} : Serves c t (.storing key value) [.get key (.ok value)]
      [.started t key, .ended t key (.ok value)]
  | leaving {key} (r : Returned κ α ε) : r.Fair c →
      Serves c t (.leaving key r.reply) [r.call] (r.events t)
  | counting {rest count last call} : call = .size ∨ call = .isEmpty →
      Serves c t (.counting rest count last) [call] []
  | looking {key rest count last call} : call = .size ∨ call = .isEmpty →
      Serves c t (.looking key rest count last) [call] []

lemma Serves.mono [DecidableEq κ] {c c' : Cache κ α} {t : τ} {phase : Phase κ α ε}
    {current : List (Call κ α ε)} {now : List (Event τ κ α ε)} (h : Serves c t phase current now)
    (hkeep : ∀ key value, c.peek key = some value → c'.peek key = some value) :
    Serves c' t phase current now := by
  cases h with
  | idle => exact .idle
  | inTable => exact .inTable
  | atSlotGet => exact .atSlotGet
  | atSlotPeek => exact .atSlotPeek
  | inSlotGet => exact .inSlotGet
  | inSlotPeek => exact .inSlotPeek
  | computing => exact .computing
  | storing => exact .storing
  | leaving r hfair => exact .leaving r (hfair.mono hkeep)
  | counting hcall => exact .counting hcall
  | looking hcall => exact .looking hcall

namespace Shared

variable [DecidableEq τ]

/-- The events of a thread, oldest first. -/
def events (s : Shared τ κ α ε) (t : τ) : List (Event τ κ α ε) :=
  (s.history.filter fun event => event.thread = t).reverse

variable [DecidableEq κ]

/-- The calls of a thread, split into those that have returned, the one that it is at work on, and
those still to come; and likewise its events. -/
structure Lane (calls : List (Call κ α ε)) (s : Shared τ κ α ε) (t : τ)
    (past : List (Returned κ α ε)) (current : List (Call κ α ε)) (now : List (Event τ κ α ε)) :
    Prop where
  calls : calls = past.map Returned.call ++ current ++ (s.threads t).calls
  replies : (s.threads t).replies = past.map Returned.reply
  events : s.events t = past.flatMap (Returned.events t) ++ now
  fair : ∀ r ∈ past, r.Fair s.cache
  serves : Serves s.cache t (s.threads t).phase current now

variable {order : Listing κ} {s : Shared τ κ α ε} {t u : τ} {key : κ} {value : α}
  {e : Effect κ α ε} {thread thread' : Thread κ α ε}

omit [DecidableEq τ] in
/-- A value that is stored stays, whatever a thread does. -/
lemma Memo.peek_turn (h : Memo s) (hturn : Turn order s (s.threads t) e thread') (key : κ)
    (value : α) (hpeek : s.cache.peek key = some value) :
    (s.affect t e).cache.peek key = some value := by
  cases e with
  | fill k v =>
    have hnone := (h.storing t k v hturn.of_fill.1).1
    have hk : key ≠ k := by
      rintro rfl
      simp [hnone] at hpeek
    exact (peek_fill_of_ne hk v).trans hpeek
  | enter k => exact (peek_touch k key).trans hpeek
  | _ => exact hpeek

/-! ### Turns -/

lemma events_affect_of_ne (hu : u ≠ t) (s : Shared τ κ α ε) (e : Effect κ α ε) :
    (s.affect t e).events u = s.events u := by
  cases e with
  | start | finish => simp [events, affect, Event.thread, Ne.symm hu]
  | _ => rfl

lemma events_affect_quiet (he : e.IsQuiet) (s : Shared τ κ α ε) (t u : τ) :
    (s.affect t e).events u = s.events u := by
  rw [events, history_affect he, events]

lemma events_affect_start (s : Shared τ κ α ε) (t : τ) (key : κ) :
    (s.affect t (.start key)).events t = s.events t ++ [.started t key] := by
  simp [events, affect, Event.thread]

lemma events_affect_finish (s : Shared τ κ α ε) (t : τ) (key : κ) (result : Except ε α) :
    (s.affect t (.finish key result)).events t = s.events t ++ [.ended t key result] := by
  simp [events, affect, Event.thread]

section Lane

variable {calls : List (Call κ α ε)} {past : List (Returned κ α ε)}
  {current current' : List (Call κ α ε)} {now now' : List (Event τ κ α ε)}

lemma Lane.other (h : Lane calls s u past current now) (hu : u ≠ t) (thread' : Thread κ α ε)
    (hkeep : ∀ key value, s.cache.peek key = some value →
      (s.affect t e).cache.peek key = some value) :
    Lane calls (s.after t e thread') u past current now := by
  have hthread : (s.after t e thread').threads u = s.threads u :=
    threads_after_of_ne hu s e thread'
  refine ⟨?_, ?_, (events_affect_of_ne hu s e).trans h.events,
    fun r hr => (h.fair r hr).mono hkeep, ?_⟩
  · rw [hthread]
    exact h.calls
  · rw [hthread]
    exact h.replies
  · rw [hthread]
    exact h.serves.mono hkeep

/-- A turn in which no call returns. -/
lemma Lane.work (h : Lane calls s t past current now) (hthread : s.threads t = thread)
    (hkeep : ∀ key value, s.cache.peek key = some value →
      (s.affect t e).cache.peek key = some value)
    (hcalls : current' ++ thread'.calls = current ++ thread.calls)
    (hreplies : thread'.replies = thread.replies)
    (hevents : (s.affect t e).events t = past.flatMap (Returned.events t) ++ now')
    (hserves : Serves (s.affect t e).cache t thread'.phase current' now') :
    Lane calls (s.after t e thread') t past current' now' := by
  subst hthread
  refine ⟨?_, ?_, hevents, fun r hr => (h.fair r hr).mono hkeep, ?_⟩
  · rw [threads_after_self, List.append_assoc, hcalls, ← List.append_assoc]
    exact h.calls
  · rw [threads_after_self, hreplies]
    exact h.replies
  · rw [threads_after_self]
    exact hserves

/-- A turn in which the call returns. -/
lemma Lane.returns (r : Returned κ α ε) (h : Lane calls s t past [r.call] (r.events t))
    (hthread : s.threads t = thread) (he : e.IsQuiet) (hfair : r.Fair s.cache)
    (hphase : thread'.phase = .idle) (hcalls : thread'.calls = thread.calls)
    (hreplies : thread'.replies = thread.replies ++ [r.reply]) :
    Lane calls (s.after t e thread') t (past ++ [r]) [] [] := by
  subst hthread
  have hkeep : ∀ key value, s.cache.peek key = some value →
      (s.affect t e).cache.peek key = some value := by
    intro key value hpeek
    rw [peek_affect he, hpeek]
  refine ⟨?_, ?_, ?_, fun x hx => ?_, ?_⟩
  · rw [threads_after_self, hcalls, h.calls]
    simp
  · rw [threads_after_self, hreplies, h.replies]
    simp
  · refine (events_affect_quiet he s t t).trans (h.events.trans ?_)
    simp
  · rcases List.mem_append.mp hx with hx | hx
    · exact (h.fair x hx).mono hkeep
    · obtain rfl := List.mem_singleton.mp hx
      exact hfair.mono hkeep
  · rw [threads_after_self, hphase]
    exact .idle

lemma Lane.turn (h : Lane calls s t past current now) (hmemo : Memo s)
    (hturn : Turn order s (s.threads t) e thread') : ∃ past' current' now',
      Lane calls (s.after t e thread') t past' current' now' := by
  have hkeep := hmemo.peek_turn hturn
  have hserves := h.serves
  have hevents := h.events
  generalize hthread : s.threads t = thread at hturn hserves
  cases hturn with
  | begin =>
    cases hserves
    exact ⟨past, _, _, h.work hthread hkeep rfl rfl hevents .inTable⟩
  | get =>
    cases hserves
    exact ⟨past, _, _, h.work hthread hkeep rfl rfl hevents .atSlotGet⟩
  | peek =>
    cases hserves
    exact ⟨past, _, _, h.work hthread hkeep rfl rfl hevents .atSlotPeek⟩
  | @peekNone key =>
    cases hserves
    exact ⟨_, _, _, Lane.returns ⟨.peek key, .stored none, false⟩ h hthread trivial trivial
      rfl rfl rfl⟩
  | size =>
    cases hserves
    exact ⟨past, _, _, h.work hthread hkeep rfl rfl hevents (.counting (.inl rfl))⟩
  | isEmpty =>
    cases hserves
    exact ⟨past, _, _, h.work hthread hkeep rfl rfl hevents (.counting (.inr rfl))⟩
  | lock =>
    cases hserves with
    | atSlotGet => exact ⟨past, _, _, h.work hthread hkeep rfl rfl hevents .inSlotGet⟩
    | atSlotPeek => exact ⟨past, _, _, h.work hthread hkeep rfl rfl hevents .inSlotPeek⟩
  | @look key =>
    cases hserves
    exact ⟨past, _, _, h.work hthread hkeep rfl rfl hevents
      (.leaving ⟨.peek key, .stored (s.cache.peek key), false⟩ trivial)⟩
  | @hit key value result _ _ hpeek =>
    cases hserves
    exact ⟨past, _, _, h.work hthread hkeep rfl rfl hevents
      (.leaving ⟨.get key result, .result (.ok value), false⟩ ⟨hpeek, by simp⟩)⟩
  | @miss key result =>
    cases hserves
    refine ⟨past, _, _, h.work hthread hkeep rfl rfl ?_ .computing⟩
    rw [events_affect_start, hevents]
    simp
  | @succeed key value =>
    cases hserves
    refine ⟨past, _, _, h.work hthread hkeep rfl rfl ?_ .storing⟩
    rw [events_affect_finish, hevents]
    simp
  | @fail key error =>
    cases hserves
    refine ⟨past, _, _, h.work hthread hkeep rfl rfl ?_
      (.leaving ⟨.get key (.error error), .result (.error error), true⟩ ⟨rfl, rfl⟩)⟩
    rw [events_affect_finish, hevents]
    simp [Returned.events]
  | @store key value =>
    cases hserves
    have hhas := hmemo.room t key (by rw [hthread]; rfl)
    exact ⟨past, _, _, h.work hthread hkeep rfl rfl hevents
      (.leaving ⟨.get key (.ok value), .result (.ok value), true⟩
        ⟨peek_fill_self hhas value, fun _ => rfl⟩)⟩
  | leave =>
    cases hserves with
    | leaving r hfair =>
      exact ⟨_, _, _, Lane.returns r h hthread trivial hfair rfl rfl rfl⟩
  | @counted count last =>
    cases hserves with
    | counting hcall =>
      rcases hcall with rfl | rfl
      · exact ⟨_, _, _, Lane.returns ⟨.size, last count, false⟩ h hthread trivial trivial rfl
          rfl rfl⟩
      · exact ⟨_, _, _, Lane.returns ⟨.isEmpty, last count, false⟩ h hthread trivial trivial rfl
          rfl rfl⟩
  | lockNext =>
    cases hserves with
    | counting hcall =>
      exact ⟨past, _, _, h.work hthread hkeep rfl rfl hevents (.looking hcall)⟩
  | count =>
    cases hserves with
    | looking hcall =>
      exact ⟨past, _, _, h.work hthread hkeep rfl rfl hevents (.counting hcall)⟩

end Lane

/-! ### Schedules -/

lemma lane_start (calls : τ → List (Call κ α ε)) (t : τ) :
    Lane (calls t) (start Cache.empty calls) t [] [] [] where
  calls := rfl
  replies := rfl
  events := rfl
  fair := by simp
  serves := .idle

/-- **Every thread has its calls answered one after the other**, after any schedule. -/
theorem lane_run (order : Listing κ) (calls : τ → List (Call κ α ε)) (schedule : List τ) (t : τ) :
    ∃ past current now,
      Lane (calls t) ((start Cache.empty calls).run order schedule) t past current now := by
  -- the calls are carried through the turns together with the memo, which keeps them fair
  refine (run_induction
    (P := fun s => Memo s ∧ ∀ t, ∃ past current now, Lane (calls t) s t past current now)
    ⟨memo_start calls, fun t => ⟨_, _, _, lane_start calls t⟩⟩ ?_ schedule).2 t
  rintro s t e thread' ⟨hmemo, hlanes⟩ hturn
  refine ⟨hmemo.turn hturn, fun u => ?_⟩
  obtain ⟨past, current, now, hlane⟩ := hlanes u
  by_cases hu : u = t
  · subst hu
    exact hlane.turn hmemo hturn
  · exact ⟨past, current, now, hlane.other hu thread' (hmemo.peek_turn hturn)⟩

/-- A step changes what is stored only by storing what the call at work has just computed. -/
lemma Lane.stores {calls : List (Call κ α ε)} {past : List (Returned κ α ε)}
    {current : List (Call κ α ε)} {now : List (Event τ κ α ε)} {s' : Shared τ κ α ε}
    (h : Lane calls s t past current now) (hmemo : Memo s) (hstep : s.step? order t = some s')
    (hchange : s'.cache.peek key ≠ s.cache.peek key) : ∃ value,
      current = [.get key (.ok value)] ∧
        now = [.started t key, .ended t key (.ok value)] ∧ s'.cache.peek key = some value := by
  obtain ⟨e, thread', hturn, rfl⟩ := step_cases hstep
  cases e with
  | fill k value =>
    have hbefore := hturn.of_fill.1
    have hserves := h.serves
    rw [hbefore] at hserves
    cases hserves
    have hhas := hmemo.room t k (by rw [hbefore]; rfl)
    by_cases hk : key = k
    · subst hk
      exact ⟨value, rfl, rfl, peek_fill_self hhas value⟩
    · exact absurd (peek_fill_of_ne hk value) hchange
  | enter k => exact absurd (peek_touch k key) hchange
  | _ => exact absurd rfl hchange

/-- **A value is computed once.** Threads make any calls, and take their steps in any order. For
each key, at most one thread computes at a time, at most one computation ever succeeds, none starts
after it, and what is stored is what it came to. Each call to get a value returns the stored value,
or else the error of its own computation, which it has run once; and what a step stores is what the
call at work has just computed, so that a call which fails stores nothing. -/
theorem get_computes_once (order : Listing κ) (calls : τ → List (Call κ α ε))
    (schedule : List τ) :
    let s := (start Cache.empty calls).run order schedule
    (∀ key,
      (∀ t u, s.Computes t key → s.Computes u key → t = u) ∧
      (s.successes key).length ≤ 1 ∧
      (s.history.Pairwise fun newer older => ¬ (newer.Starts key ∧ older.Succeeds key)) ∧
      ∀ value, s.cache.peek key = some value → s.successes key = [value]) ∧
    ∀ t, ∃ past current now, Lane (calls t) s t past current now ∧
      ∀ s' key, s.step? order t = some s' → s'.cache.peek key ≠ s.cache.peek key →
        ∃ value, current = [.get key (.ok value)] ∧
          now = [.started t key, .ended t key (.ok value)] ∧ s'.cache.peek key = some value := by
  intro s
  have hmemo : Memo s := memo_run order calls schedule
  refine ⟨fun key => ⟨fun t u ht hu => ?_, hmemo.length_successes_le key, hmemo.ordered key,
    fun value => hmemo.successes_of_peek⟩, fun t => ?_⟩
  · obtain ⟨result, ht⟩ := ht
    obtain ⟨result', hu⟩ := hu
    have htholds : (s.threads t).phase.holds? = some key := by rw [ht]; rfl
    have huholds : (s.threads u).phase.holds? = some key := by rw [hu]; rfl
    exact hmemo.held.unique htholds huholds
  · obtain ⟨past, current, now, hlane⟩ := lane_run order calls schedule t
    exact ⟨past, current, now, hlane, fun s' key => hlane.stores hmemo⟩

end Shared

end TagVersion.Cache
