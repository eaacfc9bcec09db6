import Mathlib.Data.List.Induction
import Mathlib.Data.List.Perm.Subperm
import TagVersion.Proofs.Cache.Calls
import TagVersion.Proofs.Cache.Recall

/-!
Counting the values while other threads store some. The count looks into one slot after the other,
and so mixes different moments: it is at least the number of values at the moment when the keys were
listed, as values stay, and at most the number at the end. In between the number grows one by one,
so at some moment during the call it is what the count comes to. The invariant is `Sizing`.
-/

namespace TagVersion.Cache

variable {τ κ α ε : Type}

section

variable [DecidableEq κ] {c c' : Cache κ α} {key : κ}

/-- Whether a key holds a value. -/
def holds (c : Cache κ α) (key : κ) : Bool := (c.peek key).isSome

/-- A cache with room for the values of another. -/
def Grows (c c' : Cache κ α) : Prop := ∀ key, c.holds key = true → c'.holds key = true

lemma Distinct.mem_keys_iff_holds (h : c.Distinct) : key ∈ c.keys ↔ c.holds key = true := by
  rw [h.mem_keys_iff, holds, Option.isSome_iff_exists]

/-- No more of some keys hold a value than all keys that do. -/
lemma Distinct.countP_le_size (h : c.Distinct) {keys : List κ} (hnodup : keys.Nodup) :
    keys.countP c.holds ≤ c.size := by
  rw [← length_keys, List.countP_eq_length_filter]
  refine ((hnodup.filter _).subperm fun key hkey => ?_).length_le
  exact h.mem_keys_iff_holds.mpr (List.mem_filter.mp hkey).2

/-- All keys that hold a value have slots. -/
lemma Distinct.size_le_countP (h : c.Distinct) {keys : List κ}
    (hkeys : keys.Perm (c.slots.map Prod.fst)) : c.size ≤ keys.countP c.holds := by
  rw [← length_keys, List.countP_eq_length_filter]
  refine (h.nodup_keys.subperm fun key hkey => List.mem_filter.mpr ⟨?_, ?_⟩).length_le
  · obtain ⟨slot, hslot, rfl⟩ := List.mem_map.mp hkey
    exact hkeys.mem_iff.mpr (List.mem_map_of_mem (List.mem_of_mem_filter hslot))
  · exact h.mem_keys_iff_holds.mp hkey

lemma Distinct.size_le (h : c.Distinct) (h' : c'.Distinct) (hgrows : c.Grows c') :
    c.size ≤ c'.size := by
  rw [← length_keys, ← length_keys]
  refine (h.nodup_keys.subperm fun key hkey => ?_).length_le
  exact h'.mem_keys_iff_holds.mpr (hgrows key (h.mem_keys_iff_holds.mp hkey))

/-- One more key makes one more value at most. -/
lemma Distinct.size_le_succ (h : c.Distinct) (h' : c'.Distinct) (key : κ)
    (hothers : ∀ k, k ≠ key → c'.holds k = true → c.holds k = true) : c'.size ≤ c.size + 1 := by
  rw [← length_keys, ← length_keys, ← List.length_cons (a := key)]
  refine (h'.nodup_keys.subperm fun k hk => ?_).length_le
  by_cases hkey : k = key
  · exact hkey ▸ .head _
  · exact .tail _ (h.mem_keys_iff_holds.mpr (hothers k hkey (h'.mem_keys_iff_holds.mp hk)))

/-! ### How far a count has come -/

/-- A count of some keys that began with one cache and has now come to another: it lies between the
numbers of those keys, of the ones that it has looked at, which held a value then and which do
now. -/
structure Tally (first now : Cache κ α) (keys left : List κ) (count : Nat) : Prop where
  grows : first.Grows now
  nodup : keys.Nodup
  listed : first.size ≤ keys.countP first.holds
  between : ∃ seen, keys = seen ++ left ∧
    seen.countP first.holds ≤ count ∧ count ≤ seen.countP now.holds

namespace Tally

variable {first now now' : Cache κ α} {keys left : List κ} {count : Nat}

lemma start (h : c.Distinct) (hkeys : keys.Perm (c.slots.map Prod.fst)) :
    Tally c c keys keys 0 where
  grows _ := id
  nodup := hkeys.nodup_iff.mpr h
  listed := h.size_le_countP hkeys
  between := ⟨[], rfl, Nat.le_refl 0, Nat.le_refl 0⟩

lemma mono (h : Tally first now keys left count) (hgrows : now.Grows now') :
    Tally first now' keys left count := by
  obtain ⟨hfirst, hnodup, hlisted, seen, hkeys, hlow, hhigh⟩ := h
  exact ⟨fun key hkey => hgrows key (hfirst key hkey), hnodup, hlisted, seen, hkeys, hlow,
    Nat.le_trans hhigh (List.countP_mono_left fun key _ => hgrows key)⟩

/-- Looking at the next key. -/
lemma next (h : Tally first now keys (key :: left) count) :
    Tally first now keys left (if now.holds key then count + 1 else count) := by
  obtain ⟨hfirst, hnodup, hlisted, seen, hkeys, hlow, hhigh⟩ := h
  refine ⟨hfirst, hnodup, hlisted, seen ++ [key], by simp [hkeys], ?_, ?_⟩
  · have hkeep := hfirst key
    rw [List.countP_append, List.countP_singleton]
    split_ifs <;> first | omega | simp_all
  · rw [List.countP_append, List.countP_singleton]
    split_ifs <;> omega

/-- **A count lies between the sizes** at its beginning and at its end. -/
lemma done (h : Tally first now keys [] count) (hnow : now.Distinct) :
    first.size ≤ count ∧ count ≤ now.size := by
  obtain ⟨-, hnodup, hlisted, seen, hkeys, hlow, hhigh⟩ := h
  rw [List.append_nil] at hkeys
  subst hkeys
  exact ⟨Nat.le_trans hlisted hlow, Nat.le_trans hhigh (hnow.countP_le_size hnodup)⟩

end Tally

end

/-- A thread that was about to make a call has begun it, and has no reply to it yet. -/
structure Thread.IsServed (before now : Thread κ α ε) : Prop where
  busy : now.phase ≠ .idle
  calls : now.calls = before.calls.tail
  replies : now.replies = before.replies

/-- How far a thread has come that was about to ask for the size, with the sizes that have been
passed since. While it counts, all sizes have been passed from the one at the beginning on. -/
inductive Sizing [DecidableEq κ] (before : Thread κ α ε) (passed : Nat → Prop) (c : Cache κ α) :
    Thread κ α ε → Prop where
  | waiting : Sizing before passed c before
  | entered {calls replies} : before.IsServed ⟨.inTable .size, calls, replies⟩ →
      Sizing before passed c ⟨.inTable .size, calls, replies⟩
  | counting {first keys left count calls replies} :
      before.IsServed ⟨.counting left count .size, calls, replies⟩ →
      Tally first c keys left count → (∀ n, first.size ≤ n → n ≤ c.size → passed n) →
      Sizing before passed c ⟨.counting left count .size, calls, replies⟩
  | looking {first keys key left count calls replies} :
      before.IsServed ⟨.looking key left count .size, calls, replies⟩ →
      Tally first c keys (key :: left) count → (∀ n, first.size ≤ n → n ≤ c.size → passed n) →
      Sizing before passed c ⟨.looking key left count .size, calls, replies⟩
  | replied {n phase calls more} : passed n →
      Sizing before passed c ⟨phase, calls, before.replies ++ .size n :: more⟩

section

variable [DecidableEq κ] {before thread : Thread κ α ε} {passed passed' : Nat → Prop}
  {c c' : Cache κ α}

omit [DecidableEq κ] in
/-- A size that has been passed before, or is the present one. -/
lemma passed_of_grown {low : Nat} (hall : ∀ n, low ≤ n → n ≤ c.size → passed n)
    (hsize : c'.size ≤ c.size + 1) (hpassed : ∀ n, passed n → passed' n)
    (hnow : passed' c'.size) (n : Nat) (hlow : low ≤ n) (hhigh : n ≤ c'.size) : passed' n := by
  rcases Nat.lt_or_ge c.size n with hlt | hle
  · obtain rfl : n = c'.size := by omega
    exact hnow
  · exact hpassed n (hall n hlow hle)

/-- A turn of another thread. -/
lemma Sizing.other (h : Sizing before passed c thread) (hgrows : c.Grows c')
    (hsize : c'.size ≤ c.size + 1) (hpassed : ∀ n, passed n → passed' n)
    (hnow : before.IsServed thread → passed' c'.size) : Sizing before passed' c' thread := by
  cases h with
  | waiting => exact .waiting
  | entered hserved => exact .entered hserved
  | counting hserved htally hall =>
    exact .counting hserved (htally.mono hgrows)
      (passed_of_grown hall hsize hpassed (hnow hserved))
  | looking hserved htally hall =>
    exact .looking hserved (htally.mono hgrows)
      (passed_of_grown hall hsize hpassed (hnow hserved))
  | replied hn => exact .replied (hpassed _ hn)

end

namespace Shared

variable [DecidableEq κ] {order : Listing κ} {s : Shared τ κ α ε} {t u : τ} {key : κ}
  {e : Effect κ α ε} {thread thread' before : Thread κ α ε} {passed passed' : Nat → Prop}
  {call : Call κ α ε} {rest : List (Call κ α ε)}

lemma Memo.grows (h : Memo s) (hturn : Turn order s (s.threads t) e thread') :
    s.cache.Grows (s.affect t e).cache := by
  intro key hkey
  obtain ⟨value, hvalue⟩ := Option.isSome_iff_exists.mp hkey
  exact Option.isSome_iff_exists.mpr ⟨value, h.peek_turn hturn key value hvalue⟩

lemma distinct_affect (h : s.cache.Distinct) (e : Effect κ α ε) (t : τ) :
    (s.affect t e).cache.Distinct := by
  cases e with
  | enter key => exact h.touch key
  | fill key value => exact h.fill key value
  | _ => exact h

/-- **The number of values grows one by one.** -/
lemma size_affect_le (h : s.cache.Distinct) (e : Effect κ α ε) (t : τ) :
    (s.affect t e).cache.size ≤ s.cache.size + 1 := by
  cases e with
  | enter key => exact (h.size_eq (h.touch key) fun k => (peek_touch key k).symm) ▸ Nat.le_succ _
  | fill key value =>
    refine h.size_le_succ (h.fill key value) key fun k hk hholds => ?_
    rwa [holds, affect, peek_fill_of_ne hk] at hholds
  | _ => exact Nat.le_succ _

lemma Turn.replies (h : Turn order s thread e thread') :
    ∃ more, thread'.replies = thread.replies ++ more := by
  cases h with
  | peekNone | leave | counted => exact ⟨_, rfl⟩
  | _ => exact ⟨[], (List.append_nil _).symm⟩

/-- A turn of the thread itself. -/
lemma sizing_turn (h : Sizing before passed s.cache thread)
    (hbefore : before = ⟨.idle, .size :: rest, before.replies⟩) (hdistinct : s.cache.Distinct)
    (hturn : Turn order s thread e thread') (hpassed : ∀ n, passed n → passed' n)
    (hnow : before.IsServed thread' → passed' (s.affect t e).cache.size) :
    Sizing before passed' (s.affect t e).cache thread' := by
  cases h with
  | waiting =>
    rw [hbefore] at hturn
    cases hturn with
    | begin =>
      rw [hbefore]
      exact .entered ⟨nofun, rfl, rfl⟩
  | entered hserved =>
    cases hturn with
    | size =>
      have hserved' : before.IsServed
          ⟨.counting (order.keys (s.cache.slots.map (·.1))) 0 .size, _, _⟩ :=
        ⟨nofun, hserved.calls, hserved.replies⟩
      refine .counting hserved' (Tally.start hdistinct (order.perm _)) fun n hlow hhigh => ?_
      exact Nat.le_antisymm hlow hhigh ▸ hnow hserved'
  | @counting first keys left count calls replies hserved htally hall =>
    cases hturn with
    | counted =>
      obtain ⟨hlow, hhigh⟩ := htally.done hdistinct
      have hreplies : replies = before.replies := hserved.replies
      rw [hreplies]
      exact .replied (hpassed count (hall count hlow hhigh))
    | lockNext =>
      exact .looking ⟨nofun, hserved.calls, hserved.replies⟩ htally
        fun n hlow hhigh => hpassed n (hall n hlow hhigh)
  | looking hserved htally hall =>
    cases hturn with
    | count =>
      exact .counting ⟨nofun, hserved.calls, hserved.replies⟩ htally.next
        fun n hlow hhigh => hpassed n (hall n hlow hhigh)
  | @replied n phase calls more hn =>
    obtain ⟨again, hagain⟩ := hturn.replies
    obtain ⟨phase', calls', replies'⟩ := thread'
    obtain rfl : replies' = before.replies ++ .size n :: (more ++ again) := by simpa using hagain
    exact .replied (hpassed n hn)

/-! ### Schedules -/

variable [DecidableEq τ] {schedule schedule' : List τ} {reply reply' : Reply α ε}

lemma run_append (order : Listing κ) (s : Shared τ κ α ε) (schedule schedule' : List τ) :
    s.run order (schedule ++ schedule') = (s.run order schedule).run order schedule' :=
  List.foldl_append

/-- While a thread is served, along a schedule, there is a moment with a size. -/
def Passes (order : Listing κ) (s : Shared τ κ α ε) (t : τ) (schedule : List τ) (n : Nat) : Prop :=
  ∃ early, early <+: schedule ∧ (s.threads t).IsServed ((s.run order early).threads t) ∧
    (s.run order early).cache.size = n

lemma Passes.append {n : Nat} (h : Passes order s t schedule n) (later : List τ) :
    Passes order s t (schedule ++ later) n := by
  obtain ⟨early, hearly, hserved, hsize⟩ := h
  exact ⟨early, hearly.trans (List.prefix_append _ _), hserved, hsize⟩

lemma distinct_run (order : Listing κ) (h : s.cache.Distinct) (schedule : List τ) :
    (s.run order schedule).cache.Distinct :=
  run_induction (P := fun s => s.cache.Distinct) h (fun _ t e _ h _ => distinct_affect h e t)
    schedule

lemma Memo.run (order : Listing κ) (h : Memo s) (schedule : List τ) :
    Memo (s.run order schedule) :=
  run_induction h (fun _ _ _ _ h hturn => h.turn hturn) schedule

/-- **How far a thread has come** that asks for the size, after any schedule. -/
theorem sizing_run (order : Listing κ) (hmemo : Memo s) (hdistinct : s.cache.Distinct)
    (hidle : (s.threads t).phase = .idle) (hcalls : (s.threads t).calls = .size :: rest)
    (schedule : List τ) :
    Sizing (s.threads t) (Passes order s t schedule) (s.run order schedule).cache
      ((s.run order schedule).threads t) := by
  have hbefore : s.threads t = ⟨.idle, .size :: rest, (s.threads t).replies⟩ := by
    rw [← hidle, ← hcalls]
  -- The last step is the thread's own, or another's that makes one more value at most, or none.
  induction schedule using List.reverseRecOn with
  | nil => exact .waiting
  | append_singleton schedule u ih =>
    have hmemo' := hmemo.run order schedule
    have hdistinct' := distinct_run order hdistinct schedule
    have hpassed : ∀ n, Passes order s t schedule n → Passes order s t (schedule ++ [u]) n :=
      fun n hn => hn.append [u]
    have hnow : (s.threads t).IsServed ((s.run order (schedule ++ [u])).threads t) →
        Passes order s t (schedule ++ [u]) (s.run order (schedule ++ [u])).cache.size :=
      fun hserved => ⟨_, List.prefix_rfl, hserved, rfl⟩
    rw [run_append] at hnow ⊢
    generalize s.run order schedule = now at *
    cases hstep : now.step? order u with
    | none =>
      have hstay : now.run order [u] = now := by simp [run, hstep]
      rw [hstay] at hnow ⊢
      exact ih.other (fun _ => id) (Nat.le_succ _) hpassed hnow
    | some next =>
      have hrun : now.run order [u] = next := by simp [run, hstep]
      rw [hrun] at hnow ⊢
      obtain ⟨e, thread', hturn, rfl⟩ := step_cases hstep
      by_cases hu : u = t
      · subst hu
        rw [threads_after_self] at hnow ⊢
        exact sizing_turn ih hbefore hdistinct' hturn hpassed hnow
      · rw [threads_after_of_ne (Ne.symm hu)] at hnow ⊢
        exact ih.other (hmemo'.grows hturn) (size_affect_le hdistinct' e u) hpassed hnow

lemma size_le_run (hmemo : Memo s) (hdistinct : s.cache.Distinct) (schedule : List τ) :
    s.cache.size ≤ (s.run order schedule).cache.size := by
  refine (run_induction (P := fun now =>
    Memo now ∧ now.cache.Distinct ∧ s.cache.size ≤ now.cache.size)
    ⟨hmemo, hdistinct, Nat.le_refl _⟩ ?_ schedule).2.2
  rintro now t e thread' ⟨hmemo, hdistinct, hle⟩ hturn
  have hdistinct' := distinct_affect hdistinct e t
  exact ⟨hmemo.turn hturn, hdistinct',
    Nat.le_trans hle (hdistinct.size_le hdistinct' (hmemo.grows hturn))⟩

lemma Passes.le_size {n : Nat} (h : Passes order s t schedule n) (hmemo : Memo s)
    (hdistinct : s.cache.Distinct) :
    s.cache.size ≤ n ∧ n ≤ (s.run order schedule).cache.size := by
  obtain ⟨early, ⟨later, rfl⟩, -, rfl⟩ := h
  rw [run_append]
  exact ⟨size_le_run hmemo hdistinct early,
    size_le_run (hmemo.run order early)
      (distinct_run order hdistinct early) later⟩

/-- A thread is about to make a call, and by the end of a schedule it has the reply. -/
structure Replies (order : Listing κ) (s : Shared τ κ α ε) (t : τ) (call : Call κ α ε)
    (schedule : List τ) (reply : Reply α ε) : Prop where
  idle : (s.threads t).phase = .idle
  next : (s.threads t).calls.head? = some call
  replied : (s.threads t).replies ++ [reply] <+: ((s.run order schedule).threads t).replies

/-- **A size that is replied has been passed** during the call. -/
lemma Replies.exists_passes (h : Replies order s t .size schedule reply) (hmemo : Memo s)
    (hdistinct : s.cache.Distinct) : ∃ n, reply = .size n ∧ Passes order s t schedule n := by
  obtain ⟨hidle, hnext, hreplied⟩ := h
  obtain ⟨rest, hcalls⟩ := List.head?_eq_some_iff.mp hnext
  have hsizing := sizing_run order hmemo hdistinct hidle hcalls schedule
  generalize (s.run order schedule).threads t = now at hsizing hreplied
  have hnot : ¬ (s.threads t).replies ++ [reply] <+: (s.threads t).replies := fun hprefix => by
    have := hprefix.length_le
    simp at this
  cases hsizing with
  | waiting => exact absurd hreplied hnot
  | entered hserved | counting hserved | looking hserved =>
    exact absurd (hserved.replies ▸ hreplied) hnot
  | @replied n _ _ _ hn =>
    have hhead := (List.prefix_append_right_inj _).mp hreplied
    exact ⟨n, (List.cons_prefix_cons.mp hhead).1, hn⟩

/-- **The size is that of one moment.** Threads make any calls, and take their steps in any order.
What a call for the size returns is the number of keys that held a value at some moment after the
call had begun and before it returned. And a call that begins after another has returned does not
return less. -/
theorem size_linearizable (order : Listing κ) (calls : τ → List (Call κ α ε)) (before : List τ)
    {t : τ} {schedule : List τ} {reply : Reply α ε}
    (h : ((start Cache.empty calls).run order before).Replies order t .size schedule reply) :
    let s := (start Cache.empty calls).run order before
    (∃ early, early <+: schedule ∧ (s.threads t).IsServed ((s.run order early).threads t) ∧
      reply = .size {key | ((s.run order early).cache.peek key).isSome}.ncard) ∧
    ∀ u schedule' reply', (s.run order schedule).Replies order u .size schedule' reply' →
      ∃ n m, reply = .size n ∧ reply' = .size m ∧ n ≤ m := by
  intro s
  have hmemo : Memo s := memo_run order calls before
  have hdistinct : s.cache.Distinct :=
    distinct_run (s := start Cache.empty calls) order distinct_empty before
  obtain ⟨n, rfl, hpasses⟩ := h.exists_passes hmemo hdistinct
  refine ⟨?_, fun u schedule' reply' h' => ?_⟩
  · obtain ⟨early, hearly, hserved, rfl⟩ := hpasses
    refine ⟨early, hearly, hserved, ?_⟩
    rw [(distinct_run order hdistinct early).size_eq_ncard]
  · have hmemo' := hmemo.run order schedule
    have hdistinct' := distinct_run order hdistinct schedule
    obtain ⟨m, rfl, hpasses'⟩ := h'.exists_passes hmemo' hdistinct'
    exact ⟨n, m, rfl, rfl, Nat.le_trans (hpasses.le_size hmemo hdistinct).2
      (hpasses'.le_size hmemo' hdistinct').1⟩

deriving instance DecidableEq for Call
deriving instance DecidableEq for Reply

instance : ∀ phase : Phase κ α ε, Decidable (phase = .idle)
  | .idle => .isTrue rfl
  | .inTable _ | .atSlot _ _ | .inSlot _ _ | .computing _ _ | .storing _ _ | .leaving _ _
  | .counting _ _ _ | .looking _ _ _ _ => .isFalse nofun

instance [DecidableEq α] [DecidableEq ε] (call : Call κ α ε) (schedule : List τ)
    (reply : Reply α ε) : Decidable (Replies order s t call schedule reply) :=
  decidable_of_iff ((s.threads t).phase = .idle ∧ (s.threads t).calls.head? = some call ∧
    (s.threads t).replies ++ [reply] <+: ((s.run order schedule).threads t).replies)
    ⟨fun ⟨hidle, hnext, hreplied⟩ => ⟨hidle, hnext, hreplied⟩,
      fun h => ⟨h.idle, h.next, h.replied⟩⟩

/-- One thread asks for the size twice. The other stores two values. -/
def twoCounts : Bool → List (Call Nat String Unit)
  | false => [.size, .size]
  | true => [.get 1 (.error ()), .get 2 (.ok "b"), .get 1 (.ok "a")]

/-- Both keys have slots. -/
def twoSlots : Shared Bool Nat String Unit :=
  (start Cache.empty twoCounts).run (.newestFirst Nat) (List.replicate 8 true)

/-- Between the first count's looks into the two slots the other thread stores a value in the one
that has been looked into, and then one in the other. -/
def meanwhile : List Bool :=
  List.replicate 4 false ++ List.replicate 12 true ++ List.replicate 3 false

/-- The first count finds neither what was there at the beginning nor what is there at the end. -/
theorem size_linearizable_mixed :
    let order := Listing.newestFirst Nat
    twoSlots.Replies order false .size meanwhile (.size 1) ∧
      (twoSlots.run order meanwhile).Replies order false .size (List.replicate 7 false) (.size 2) ∧
      twoSlots.cache.size = 0 ∧ (twoSlots.run order meanwhile).cache.size = 2 ∧
      ∃ early, early <+: meanwhile ∧
        (twoSlots.threads false).IsServed ((twoSlots.run order early).threads false) ∧
        {key | ((twoSlots.run order early).cache.peek key).isSome}.ncard = 1 := by
  intro order
  have hfirst : twoSlots.Replies order false .size meanwhile (.size 1) := by decide +kernel
  have hsecond : (twoSlots.run order meanwhile).Replies order false .size
      (List.replicate 7 false) (.size 2) := by decide +kernel
  obtain ⟨⟨early, hearly, hserved, hsize⟩, -⟩ :=
    size_linearizable (.newestFirst Nat) twoCounts (List.replicate 8 true) hfirst
  refine ⟨hfirst, hsecond, ?_, ?_, early, hearly, hserved, (Reply.size.inj hsize).symm⟩
  · decide +kernel
  · decide +kernel

end Shared

end TagVersion.Cache
