import Mathlib.Data.List.Induction
import TagVersion.Cache.Threads
import TagVersion.Proofs.Cache.Cells
import TagVersion.Proofs.Cache.Keeper

/-!
Calls to one cache, one after the other. To those who make them the cache is a partial map: which
keys have got a slot, which of the slots a failure has left empty, and how the keys were spelled
does not show. In a partial map a call for a key reads and writes at that key alone. So what is
answered for a key hangs on the gets for that key, and calls for different keys can change places.
-/

namespace TagVersion.Cache

variable {α ε : Type}

/-- A key as it is spelled. -/
structure Spelled where
  root : String
  tagPrefix : String

/-- The key itself: keys are equal if their roots have the same parts and their prefixes are
equal. -/
def Spelled.key (k : Spelled) : Key := ⟨Path.parts k.root, k.tagPrefix⟩

/-- What a call comes to: its reply, and how often its computation ran. -/
structure Answer (α ε : Type) where
  reply : Reply α ε
  runs : Nat

namespace Call

/-- The key that a call is for. -/
def key? : Call Spelled α ε → Option Key
  | .get k _ | .peek k => some k.key
  | .size | .isEmpty => none

/-- Whether a call gets the value of a key. -/
def gets (key : Key) : Call Spelled α ε → Bool
  | .get k _ => k.key = key
  | .peek _ | .size | .isEmpty => false

end Call

/-! ### A partial map -/

/-- A partial map from keys to values. -/
abbrev Plain (α : Type) := Key → Option α

namespace Plain

/-- The number of keys with a value. -/
noncomputable def size (m : Plain α) : Nat := {key | (m key).isSome}.ncard

/-- Answers a call. A value, once there, is the answer for good; the value of a computation that
runs is put into the map. -/
noncomputable def ask (m : Plain α) : Call Spelled α ε → Plain α × Answer α ε
  | .get k result =>
    match m k.key, result with
    | some v, _ => (m, ⟨.result (.ok v), 0⟩)
    | none, .ok v => (Function.update m k.key (some v), ⟨.result (.ok v), 1⟩)
    | none, .error e => (m, ⟨.result (.error e), 1⟩)
  | .peek k => (m, ⟨.stored (m k.key), 0⟩)
  | .size => (m, ⟨.size m.size, 0⟩)
  | .isEmpty => (m, ⟨.isEmpty (m.size == 0), 0⟩)

/-- The map after some calls. -/
noncomputable def after (m : Plain α) (calls : List (Call Spelled α ε)) : Plain α :=
  calls.foldl (fun m call => (m.ask call).1) m

/-- The map without values. -/
def empty : Plain α := fun _ => none

variable {m m' : Plain α} {call a b : Call Spelled α ε} {key key' : Key}

lemma after_append (m : Plain α) (before rest : List (Call Spelled α ε)) :
    m.after (before ++ rest) = (m.after before).after rest :=
  List.foldl_append ..

/-- A call for a key reads at that key and writes at that key. -/
lemma ask_local (hcall : call.key? = some key) : ∃ f : Option α → Option α × Answer α ε,
    ∀ m : Plain α, m.ask call = (Function.update m key (f (m key)).1, (f (m key)).2) := by
  cases call with
  | get k result =>
    obtain rfl : k.key = key := Option.some.inj hcall
    refine ⟨fun kept => kept.elim (result.toOption, ⟨.result result, 1⟩) fun v =>
      (some v, ⟨.result (.ok v), 0⟩), fun m => ?_⟩
    have hself : Function.update m k.key (m k.key) = m := Function.update_eq_self k.key m
    cases hkept : m k.key with
    | some v =>
      rw [hkept] at hself
      simp only [ask, hkept, Option.elim_some, hself]
    | none =>
      rw [hkept] at hself
      cases result <;> simp only [ask, hkept, Option.elim_none, hself, Except.toOption]
  | peek k =>
    obtain rfl : k.key = key := Option.some.inj hcall
    exact ⟨fun kept => (kept, ⟨.stored kept, 0⟩), fun m => by simp [ask]⟩
  | size => simp [Call.key?] at hcall
  | isEmpty => simp [Call.key?] at hcall

/-- What is answered for a key hangs on what there is at the key. -/
lemma answer_congr (hcall : call.key? = some key) (h : m key = m' key) :
    (m.ask call).2 = (m'.ask call).2 := by
  obtain ⟨f, hf⟩ := ask_local hcall
  rw [hf, hf, h]

/-- Only a get for a key changes what there is at the key. -/
lemma ask_of_not_gets (m : Plain α) (h : call.gets key = false) : (m.ask call).1 key = m key := by
  cases call with
  | get k result =>
    have hne : key ≠ k.key := fun heq => by simp [Call.gets, heq] at h
    have hkey : (Call.get k result).key? = some k.key := rfl
    obtain ⟨f, hf⟩ := ask_local hkey
    rw [hf]
    exact Function.update_of_ne hne ..
  | peek k => rfl
  | size => rfl
  | isEmpty => rfl

lemma ask_of_gets (hcall : call.gets key = true) (h : m key = m' key) :
    (m.ask call).1 key = (m'.ask call).1 key := by
  cases call with
  | get k result =>
    obtain rfl : k.key = key := of_decide_eq_true hcall
    have hkey : (Call.get k result).key? = some k.key := rfl
    obtain ⟨f, hf⟩ := ask_local hkey
    simp only [hf, Function.update_self, h]
  | peek k => simp [Call.gets] at hcall
  | size => simp [Call.gets] at hcall
  | isEmpty => simp [Call.gets] at hcall

/-- What there is at a key hangs on the gets for that key. -/
lemma after_filter (key : Key) (calls : List (Call Spelled α ε)) :
    empty.after calls key = empty.after (calls.filter (·.gets key)) key := by
  induction calls using List.reverseRecOn with
  | nil => rfl
  | append_singleton calls call ih =>
    rw [List.filter_append, after_append]
    cases hcall : call.gets key with
    | true =>
      rw [List.filter_cons_of_pos hcall, List.filter_nil, after_append]
      exact ask_of_gets hcall ih
    | false =>
      rw [List.filter_cons_of_neg (by simp [hcall]), List.filter_nil, List.append_nil, ← ih]
      exact ask_of_not_gets _ hcall

/-- A call for one key makes no difference to a call for another. -/
lemma answer_ask (ha : a.key? = some key) (hb : b.key? = some key') (hne : key ≠ key') :
    ((m.ask a).1.ask b).2 = (m.ask b).2 := by
  obtain ⟨f, hf⟩ := ask_local ha
  refine answer_congr hb ?_
  rw [hf]
  exact Function.update_of_ne hne.symm ..

lemma ask_comm (ha : a.key? = some key) (hb : b.key? = some key') (hne : key ≠ key') :
    ((m.ask a).1.ask b).1 = ((m.ask b).1.ask a).1 := by
  obtain ⟨f, hf⟩ := ask_local ha
  obtain ⟨g, hg⟩ := ask_local hb
  simp only [hf, hg, Function.update_of_ne hne, Function.update_of_ne hne.symm]
  exact Function.update_comm hne ..

lemma after_comm (m : Plain α) (ha : a.key? = some key) (hb : b.key? = some key') (hne : key ≠ key')
    (rest : List (Call Spelled α ε)) : m.after (a :: b :: rest) = m.after (b :: a :: rest) :=
  congrArg (after · rest) (ask_comm ha hb hne)

end Plain

/-! ### The cache -/

/-- A computation that comes to a result. The state is the number of runs. -/
def counted (result : Except ε α) : StateM Nat (Except ε α) := do
  modify (· + 1)
  return result

/-- Makes a call by itself. -/
def ask (c : Cache Key α) : Call Spelled α ε → Cache Key α × Answer α ε
  | .get k result =>
    let ((after, outcome), runs) := (c.get k.key (counted result)).run 0
    (after, ⟨.result outcome, runs⟩)
  | .peek k => (c, ⟨.stored (c.peek k.key), 0⟩)
  | .size => (c, ⟨.size c.size, 0⟩)
  | .isEmpty => (c, ⟨.isEmpty c.isEmpty, 0⟩)

variable {c : Cache Key α} {k : Spelled} {key : Key} {v w : α} {call : Call Spelled α ε}

lemma ask_get_of_peek (h : c.peek k.key = some v) (result : Except ε α) :
    c.ask (.get k result) = (c, ⟨.result (.ok v), 0⟩) := by
  rw [ask, get_of_peek h]
  rfl

lemma ask_get_of_not_peek (h : c.peek k.key = none) (result : Except ε α) :
    c.ask (.get k result) = (c.settle k.key result, ⟨.result result, 1⟩) := by
  rw [ask, get_of_not_peek h]
  rfl

lemma Distinct.ask (h : c.Distinct) (call : Call Spelled α ε) : (c.ask call).1.Distinct := by
  cases call with
  | get k result =>
    cases hpeek : c.peek k.key with
    | some v => rwa [ask_get_of_peek hpeek]
    | none =>
      rw [ask_get_of_not_peek hpeek]
      exact h.settle _ _
  | peek k => exact h
  | size => exact h
  | isEmpty => exact h

lemma Distinct.size_eq_size (h : c.Distinct) : c.size = Plain.size c.peek := h.size_eq_ncard

/-- **One call to a cache is one call to the map of what it holds.** -/
lemma Distinct.ask_peek (h : c.Distinct) (call : Call Spelled α ε) :
    Plain.ask c.peek call = ((c.ask call).1.peek, (c.ask call).2) := by
  cases call with
  | get k result =>
    cases hpeek : c.peek k.key with
    | some v => simp [Plain.ask, hpeek, ask_get_of_peek hpeek]
    | none =>
      rw [ask_get_of_not_peek hpeek]
      cases result with
      | error e =>
        have hsame : (c.settle k.key (.error e : Except ε α)).peek = c.peek :=
          funext fun key => peek_settle_error k.key key e
        simp [Plain.ask, hpeek, hsame]
      | ok v =>
        have hput : (c.settle k.key (.ok v : Except ε α)).peek =
            Function.update c.peek k.key (some v) := by
          funext key
          rw [peek_settle_ok, Function.update_apply]
        simp [Plain.ask, hpeek, hput]
  | peek k => rfl
  | size => simp [Plain.ask, Cache.ask, h.size_eq_size]
  | isEmpty => simp [Plain.ask, Cache.ask, isEmpty, h.size_eq_size]

/-- A call for one key makes no difference to what a call for another is answered. -/
lemma Distinct.answer_ask (h : c.Distinct) {a b : Call Spelled α ε} {key' : Key}
    (ha : a.key? = some key) (hb : b.key? = some key') (hne : key ≠ key') :
    ((c.ask a).1.ask b).2 = (c.ask b).2 :=
  calc ((c.ask a).1.ask b).2 = ((Plain.ask c.peek a).1.ask b).2 := by
        rw [h.ask_peek, (h.ask a).ask_peek]
    _ = (Plain.ask c.peek b).2 := Plain.answer_ask ha hb hne
    _ = (c.ask b).2 := by rw [h.ask_peek]

/-- Whether a call gets the value of a key, and is answered by some value. -/
def Tells (c : Cache Key α) (call : Call Spelled α ε) (key : Key) (v : α) : Prop :=
  call.gets key ∧ (c.ask call).2.reply = .result (.ok v)

lemma tells_get_iff {result : Except ε α} : c.Tells (.get k result) key v ↔
    key = k.key ∧ (c.ask (.get k result)).2.reply = .result (.ok v) := by
  simp [Tells, Call.gets, eq_comm]

/-- One call: a key keeps what it holds, and comes to hold what is told under it. -/
lemma peek_ask_iff (c : Cache Key α) (call : Call Spelled α ε) (key : Key) (v : α) :
    (c.ask call).1.peek key = some v ↔
      c.peek key = some v ∨ c.peek key = none ∧ c.Tells call key v := by
  cases call with
  | get k result =>
    rw [tells_get_iff]
    cases hpeek : c.peek k.key with
    | some w =>
      rw [ask_get_of_peek hpeek]
      exact peek_iff_of_peek hpeek
    | none =>
      rw [ask_get_of_not_peek hpeek, Reply.result.injEq]
      exact peek_settle_iff hpeek
  | peek k => simp [Cache.ask, Tells, Call.gets]
  | size => simp [Cache.ask, Tells, Call.gets]
  | isEmpty => simp [Cache.ask, Tells, Call.gets]

lemma eq_of_tells (hpeek : c.peek key = some w) (htells : c.Tells call key v) : v = w := by
  cases call with
  | get k result =>
    obtain ⟨rfl, hreply⟩ := tells_get_iff.mp htells
    rw [ask_get_of_peek hpeek, Reply.result.injEq] at hreply
    exact (Except.ok.inj hreply).symm
  | peek k => simp [Tells, Call.gets] at htells
  | size => simp [Tells, Call.gets] at htells
  | isEmpty => simp [Tells, Call.gets] at htells

/-- A cache keeps what it tells. -/
def keeper : Keeper (Cache Key α) (Call Spelled α ε) Key α where
  start := .empty
  next c call := (c.ask call).1
  kept := peek
  tells := Tells
  kept_start := peek_empty
  kept_next := peek_ask_iff
  eq_of_tells _ _ _ _ _ := eq_of_tells

lemma distinct_run (calls : List (Call Spelled α ε)) : (keeper.run calls).Distinct :=
  Keeper.run_induction distinct_empty (fun _ call h => h.ask call) calls

/-- What a cache holds after some calls is the map after these calls. -/
lemma peek_run (calls : List (Call Spelled α ε)) :
    (keeper.run calls).peek = Plain.empty.after calls := by
  induction calls using List.reverseRecOn with
  | nil => rfl
  | append_singleton calls call ih =>
    have hstep := (distinct_run calls).ask_peek call
    rw [Keeper.run_append_singleton, Plain.after_append, ← ih]
    exact (congrArg Prod.fst hstep).symm

lemma answer_run (calls : List (Call Spelled α ε)) (call : Call Spelled α ε) :
    ((keeper.run calls).ask call).2 = ((Plain.empty.after calls).ask call).2 := by
  rw [← peek_run, (distinct_run calls).ask_peek]

lemma setOf_told (calls : List (Call Spelled α ε)) :
    {key | keeper.Told key calls} = {key | ((keeper.run calls).peek key).isSome} := by
  ext key
  rw [Set.mem_ofPred_eq, Set.mem_ofPred_eq, Option.isSome_iff_exists]
  exact keeper.exists_kept_run_iff.symm

lemma finite_told (calls : List (Call Spelled α ε)) : {key | keeper.Told key calls}.Finite := by
  rw [setOf_told, (distinct_run calls).setOf_peek]
  exact Finset.finite_toSet _

lemma size_run (calls : List (Call Spelled α ε)) :
    (keeper.run calls).size = {key | keeper.Told key calls}.ncard := by
  rw [setOf_told]
  exact (distinct_run calls).size_eq_ncard

/-- **A cache is a partial map.** Any calls may come before, with keys in any spelling. What is
answered is what a map would answer. Under a key that has been told, a get runs nothing, and it and
a peek answer the very value that was told first. Under any other key a get runs its computation
once and answers what comes of it, and a peek finds nothing. The size is the number of keys that
have been told. So of all calls before, those which get the value of a key are all that counts for
the key; and two calls for different keys can change places, for what they are answered and for what
any later call is. -/
theorem ask_run (calls : List (Call Spelled α ε)) :
    let c := keeper.run calls
    let ask : Call Spelled α ε → Cache Key α × Answer α ε := c.ask
    let told := {key | keeper.Told key calls}
    (∀ call, (ask call).2 = ((Plain.empty.after calls).ask call).2) ∧
    (∀ k : Spelled,
      (keeper.Told k.key calls → ∃ v, keeper.FirstTold k.key calls v ∧
        (∀ result, ask (.get k result) = (c, ⟨.result (.ok v), 0⟩)) ∧
          ask (.peek k) = (c, ⟨.stored (some v), 0⟩)) ∧
      (¬ keeper.Told k.key calls →
        (∀ result, (ask (.get k result)).2 = ⟨.result result, 1⟩) ∧
          ask (.peek k) = (c, ⟨.stored none, 0⟩))) ∧
    (told.Finite ∧ ask .size = (c, ⟨.size told.ncard, 0⟩) ∧
      ask .isEmpty = (c, ⟨.isEmpty (told.ncard == 0), 0⟩)) ∧
    (∀ call key, call.key? = some key →
      (ask call).2 = ((keeper.run (calls.filter (·.gets key))).ask call).2) ∧
    ∀ a b key key', a.key? = some key → b.key? = some key' → key ≠ key' →
      ((ask a).1.ask b).2 = (ask b).2 ∧ ((ask b).1.ask a).2 = (ask a).2 ∧
        ∀ rest (call : Call Spelled α ε), ((keeper.run (calls ++ a :: b :: rest)).ask call).2 =
          ((keeper.run (calls ++ b :: a :: rest)).ask call).2 := by
  intro c ask told
  have hdistinct : c.Distinct := distinct_run calls
  refine ⟨answer_run calls, fun k => ⟨fun htold => ?_, fun hnot => ?_⟩, ?_, ?_, ?_⟩
  · obtain ⟨v, hfirst⟩ := Keeper.told_iff.mp htold
    have hpeek : c.peek k.key = some v := keeper.kept_run_iff.mpr hfirst
    refine ⟨v, hfirst, ask_get_of_peek hpeek, ?_⟩
    rw [← hpeek]
    rfl
  · have hpeek : c.peek k.key = none := keeper.kept_run_eq_none_iff.mpr hnot
    refine ⟨fun result => congrArg Prod.snd (ask_get_of_not_peek hpeek result), ?_⟩
    rw [← hpeek]
    rfl
  · have hsize : told.ncard = c.size := (size_run calls).symm
    rw [hsize]
    exact ⟨finite_told calls, rfl, rfl⟩
  · intro call key hcall
    rw [answer_run, answer_run]
    exact Plain.answer_congr hcall (Plain.after_filter key calls)
  · intro a b key key' ha hb hne
    refine ⟨hdistinct.answer_ask ha hb hne, hdistinct.answer_ask hb ha hne.symm, ?_⟩
    intro rest call
    rw [answer_run, answer_run, Plain.after_append, Plain.after_append,
      Plain.after_comm _ ha hb hne]

/-- A get that fails, and one for the same key in another spelling, whose value lies in a cell. -/
def respelled : List (Call Spelled (Cell Nat) String) :=
  [.get ⟨"/r", "v"⟩ (.error "busy"), .get ⟨"/r/./", "v"⟩ (.ok ⟨1, 0⟩)]

theorem ask_run_respelled :
    let c := keeper.run respelled
    let again : Call Spelled (Cell Nat) String := .get ⟨"//r", "v"⟩ (.ok ⟨1, 1⟩)
    let other : Call Spelled (Cell Nat) String := .get ⟨"/r", "w"⟩ (.ok ⟨1, 2⟩)
    (c.ask again).2 = ⟨.result (.ok ⟨1, 0⟩), 0⟩ ∧ (c.ask other).2 = ⟨.result (.ok ⟨1, 2⟩), 1⟩ ∧
      ((c.ask other).1.ask again).2 = ⟨.result (.ok ⟨1, 0⟩), 0⟩ := by
  intro c again other
  have hkey : Spelled.key ⟨"//r", "v"⟩ ≠ Spelled.key ⟨"/r", "w"⟩ := by decide
  have hheld : c.peek (Spelled.key ⟨"//r", "v"⟩) = some ⟨1, 0⟩ := rfl
  have hfree : c.peek (Spelled.key ⟨"/r", "w"⟩) = none := rfl
  obtain ⟨-, hkeys, -, -, hcommute⟩ := ask_run respelled
  obtain ⟨v, hfirst, hget, -⟩ := (hkeys ⟨"//r", "v"⟩).1 (keeper.exists_kept_run_iff.mp ⟨_, hheld⟩)
  obtain ⟨hother, -⟩ := (hkeys ⟨"/r", "w"⟩).2 (keeper.kept_run_eq_none_iff.mp hfree)
  obtain rfl : v = ⟨1, 0⟩ := Option.some.inj ((keeper.kept_run_iff.mpr hfirst).symm.trans hheld)
  have hagain : (c.ask again).2 = ⟨.result (.ok ⟨1, 0⟩), 0⟩ := congrArg Prod.snd (hget _)
  obtain ⟨hswap, -, -⟩ := hcommute other again _ _ rfl rfl hkey.symm
  exact ⟨hagain, hother _, hswap.trans hagain⟩

end TagVersion.Cache
