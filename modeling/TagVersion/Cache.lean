import TagVersion.Path

/-!
A memo of computed values. A key gets a slot when it is first asked for; the slot stays empty
until a computation for the key succeeds, and then keeps that value for good. A failure stores
nothing.
-/

namespace TagVersion

/-- The slots, newest first, at most one a key. -/
structure Cache (κ α : Type) where
  slots : List (κ × Option α)

namespace Cache

variable {κ α ε : Type} [DecidableEq κ]

def empty : Cache κ α := ⟨[]⟩

/-- The stored value of a key, without computing. -/
def peek (c : Cache κ α) (key : κ) : Option α := (c.slots.lookup key).join

/-- Makes sure that a key has a slot. -/
def touch (c : Cache κ α) (key : κ) : Cache κ α :=
  match c.slots.lookup key with
  | some _ => c
  | none => ⟨(key, none) :: c.slots⟩

/-- Puts a value into the slot of a key. -/
def fill (c : Cache κ α) (key : κ) (value : α) : Cache κ α :=
  ⟨c.slots.map fun (k, slot) => (k, if k = key then some value else slot)⟩

/-- The value of a key: the stored one, or else the result of the computation, which is stored
if it is a value. The computation may have effects, and runs only if no value is stored. -/
def get {m : Type → Type} [Monad m] (c : Cache κ α) (key : κ) (compute : m (Except ε α)) :
    m (Cache κ α × Except ε α) :=
  match (c.touch key).peek key with
  | some value => pure (c.touch key, .ok value)
  | none => do
    match ← compute with
    | .ok value => pure ((c.touch key).fill key value, .ok value)
    | .error e => pure (c.touch key, .error e)

/-- The number of keys that hold a value. -/
def size (c : Cache κ α) : Nat := c.slots.countP (·.2.isSome)

def isEmpty (c : Cache κ α) : Bool := c.size == 0

/-- What a resolved version is kept under: the parts of the root's path, and the prefix. -/
structure Key where
  root : List Path.Part
  tagPrefix : String
deriving DecidableEq

end Cache

end TagVersion
