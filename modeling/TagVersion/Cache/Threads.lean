import TagVersion.Cache

/-!
Threads that share a cache. The table of slots has a lock, and so has each slot; a call is made of
steps, each of which takes a lock, gives one back, or works under one. A thread that needs a lock
that another holds has no next step until that one gives it back. Any order in which threads take
their steps is a schedule, and what a schedule leads to is a function of it.
-/

namespace TagVersion

namespace Cache

/-- A call that a thread makes. With `get` goes what its computation comes to if it runs. -/
inductive Call (κ α ε : Type) where
  | get (key : κ) (result : Except ε α)
  | peek (key : κ)
  | size
  | isEmpty

/-- What a call returns. -/
inductive Reply (α ε : Type) where
  | result (r : Except ε α)
  | stored (value : Option α)
  | size (count : Nat)
  | isEmpty (answer : Bool)

/-- How far a thread has come with a call. -/
inductive Phase (κ α ε : Type) where
  /-- Between two calls. -/
  | idle
  /-- Holds the table's lock. -/
  | inTable (call : Call κ α ε)
  /-- Needs the lock of a key's slot; what it will do there is to get or to peek. -/
  | atSlot (key : κ) (compute : Option (Except ε α))
  /-- Holds the slot's lock and has not looked yet. -/
  | inSlot (key : κ) (compute : Option (Except ε α))
  /-- Holds the slot's lock while the computation runs. -/
  | computing (key : κ) (result : Except ε α)
  /-- Holds the slot's lock and has a value to store. -/
  | storing (key : κ) (value : α)
  /-- Holds the slot's lock and knows what to return. -/
  | leaving (key : κ) (reply : Reply α ε)
  /-- Counts values and needs the locks of some more slots; `last` says what to return. -/
  | counting (rest : List κ) (count : Nat) (last : Nat → Reply α ε)
  /-- Counts values and holds the lock of a slot. -/
  | looking (key : κ) (rest : List κ) (count : Nat) (last : Nat → Reply α ε)

/-- A thread: the calls it has still to make, and the replies it has got, oldest first. -/
structure Thread (κ α ε : Type) where
  phase : Phase κ α ε := .idle
  calls : List (Call κ α ε) := []
  replies : List (Reply α ε) := []

/-- What happens to computations. -/
inductive Event (τ κ α ε : Type) where
  | started (thread : τ) (key : κ)
  | ended (thread : τ) (key : κ) (result : Except ε α)

/-- Threads of names in `τ`, the cache they share, the locks, and the past. -/
structure Shared (τ κ α ε : Type) where
  cache : Cache κ α
  tableHolder : Option τ := none
  slotHolder : κ → Option τ := fun _ => none
  threads : τ → Thread κ α ε
  /-- The computations' past, newest first. -/
  history : List (Event τ κ α ε) := []

/-- An order in which the table lists its keys. It depends on how the table lies in memory. -/
structure Listing (κ : Type) where
  keys : List κ → List κ
  perm : ∀ ks, (keys ks).Perm ks

/-- The keys in the order in which they came. -/
def Listing.newestFirst (κ : Type) : Listing κ := ⟨fun ks => ks, fun ks => .refl ks⟩

namespace Shared

variable {τ κ α ε : Type} [DecidableEq τ] [DecidableEq κ]

/-- A function with one value changed. -/
def update {ι β : Type} [DecidableEq ι] (f : ι → β) (i : ι) (b : β) : ι → β :=
  fun j => if j = i then b else f j

@[simp] theorem update_self {ι β : Type} [DecidableEq ι] (f : ι → β) (i : ι) (b : β) :
    update f i b i = b := by simp [update]

theorem update_of_ne {ι β : Type} [DecidableEq ι] {i j : ι} (h : j ≠ i) (f : ι → β) (b : β) :
    update f i b j = f j := by simp [update, h]

/-- The threads before their first steps, each with the calls it is to make. -/
def start (cache : Cache κ α) (calls : τ → List (Call κ α ε)) : Shared τ κ α ε where
  cache
  threads t := { calls := calls t }

/-- Moves a thread on to a phase. -/
def move (s : Shared τ κ α ε) (t : τ) (phase : Phase κ α ε) : Shared τ κ α ε :=
  { s with threads := update s.threads t { s.threads t with phase } }

/-- Ends a thread's call. -/
def reply (s : Shared τ κ α ε) (t : τ) (r : Reply α ε) : Shared τ κ α ε :=
  let thread := s.threads t
  { s with
    threads := update s.threads t { thread with phase := .idle, replies := thread.replies ++ [r] } }

/-- Takes the lock of a slot, if it is free. -/
def lockSlot (s : Shared τ κ α ε) (t : τ) (key : κ) : Option (Shared τ κ α ε) :=
  match s.slotHolder key with
  | some _ => none
  | none => some { s with slotHolder := update s.slotHolder key (some t) }

def unlockSlot (s : Shared τ κ α ε) (key : κ) : Shared τ κ α ε :=
  { s with slotHolder := update s.slotHolder key none }

/-- Begins the next call: takes the table's lock, if it is free. -/
def begin (s : Shared τ κ α ε) (t : τ) : Option (Shared τ κ α ε) :=
  match (s.threads t).calls, s.tableHolder with
  | call :: rest, none =>
    let threads := update s.threads t { s.threads t with phase := .inTable call, calls := rest }
    some { s with tableHolder := some t, threads }
  | _, _ => none

/-- What a call does under the table's lock, which it gives back at once. -/
def inTable (order : Listing κ) (s : Shared τ κ α ε) (t : τ) (call : Call κ α ε) :
    Shared τ κ α ε :=
  let s := { s with tableHolder := none }
  let keys := order.keys (s.cache.slots.map (·.1))
  match call with
  | .get key result => { s with cache := s.cache.touch key }.move t (.atSlot key (some result))
  | .peek key =>
    match s.cache.slots.lookup key with
    | some _ => s.move t (.atSlot key none)
    | none => s.reply t (.stored none)
  | .size => s.move t (.counting keys 0 .size)
  | .isEmpty => s.move t (.counting keys 0 fun count => .isEmpty (count == 0))

/-- Looks into a slot: a value there is returned; where there is none a computation starts, unless
the call is not to compute. -/
def inSlot (s : Shared τ κ α ε) (t : τ) (key : κ) (compute : Option (Except ε α)) :
    Shared τ κ α ε :=
  match s.cache.peek key, compute with
  | stored, none => s.move t (.leaving key (.stored stored))
  | some value, some _ => s.move t (.leaving key (.result (.ok value)))
  | none, some result =>
    { s with history := .started t key :: s.history }.move t (.computing key result)

/-- Ends a computation. A failure is returned and not stored. -/
def computed (s : Shared τ κ α ε) (t : τ) (key : κ) (result : Except ε α) : Shared τ κ α ε :=
  let s := { s with history := .ended t key result :: s.history }
  match result with
  | .ok value => s.move t (.storing key value)
  | .error e => s.move t (.leaving key (.result (.error e)))

/-- The next step of a thread. There is none if the thread is through with its calls, or needs a
lock that is held. -/
def step? (order : Listing κ) (s : Shared τ κ α ε) (t : τ) : Option (Shared τ κ α ε) :=
  match (s.threads t).phase with
  | .idle => s.begin t
  | .inTable call => some (s.inTable order t call)
  | .atSlot key compute => (s.lockSlot t key).map (·.move t (.inSlot key compute))
  | .inSlot key compute => some (s.inSlot t key compute)
  | .computing key result => some (s.computed t key result)
  | .storing key value =>
    let s := { s with cache := s.cache.fill key value }
    some (s.move t (.leaving key (.result (.ok value))))
  | .leaving key r => some ((s.unlockSlot key).reply t r)
  | .counting [] count last => some (s.reply t (last count))
  | .counting (key :: rest) count last =>
    (s.lockSlot t key).map (·.move t (.looking key rest count last))
  | .looking key rest count last =>
    let count := if (s.cache.peek key).isSome then count + 1 else count
    some ((s.unlockSlot key).move t (.counting rest count last))

/-- What a schedule leads to. Where it names a thread that has no next step, nothing happens. -/
def run (order : Listing κ) (s : Shared τ κ α ε) (schedule : List τ) : Shared τ κ α ε :=
  schedule.foldl (fun s t => (s.step? order t).getD s) s

/-- The computations for a key that have started. -/
def starts (s : Shared τ κ α ε) (key : κ) : Nat :=
  s.history.countP fun
    | .started _ k => k = key
    | .ended .. => false

/-- The schedule in which threads take turns, round after round. -/
def turns (threads : List τ) (rounds : Nat) : List τ := (List.replicate rounds threads).flatten

end Shared

end Cache

end TagVersion
