import TagVersion.Repository.Basic

/-!
Readings of a repository: an outcome together with the journal of what was asked and logged on the
way. A reading stops at its first failure, so the journal ends with the question that failed.
-/

namespace TagVersion

/-- An entry of the journal. -/
inductive Event where
  | asked (query : Query)
  | logged (line : Log.Line)
deriving DecidableEq

structure Reading (ε α : Type) where
  journal : List Event
  outcome : Except ε α

namespace Reading

variable {ε ε' α β : Type}

def pure (a : α) : Reading ε α := ⟨[], .ok a⟩

def bind (x : Reading ε α) (f : α → Reading ε β) : Reading ε β :=
  match x.outcome with
  | .error e => ⟨x.journal, .error e⟩
  | .ok a => ⟨x.journal ++ (f a).journal, (f a).outcome⟩

instance : Monad (Reading ε) where
  pure := pure
  bind := bind

/-- The reading that fails. -/
def fail (e : ε) : Reading ε α := ⟨[], .error e⟩

/-- The reading that writes a line to the log. -/
def log (line : Log.Line) : Reading ε Unit := ⟨[.logged line], .ok ()⟩

/-- The reading of an outcome that is known already. -/
def ofExcept (outcome : Except ε α) : Reading ε α := ⟨[], outcome⟩

/-- The same reading with its failure told as another kind of error. -/
def mapError (f : ε → ε') (x : Reading ε α) : Reading ε' α := ⟨x.journal, x.outcome.mapError f⟩

/-- The questions that were asked, in order. -/
def asked (x : Reading ε α) : List Query :=
  x.journal.filterMap fun
    | .asked query => some query
    | .logged _ => none

/-- The lines that were logged, in order. -/
def lines (x : Reading ε α) : List Log.Line :=
  x.journal.filterMap fun
    | .asked _ => none
    | .logged line => some line

@[simp] theorem outcome_pure (a : α) : (Pure.pure a : Reading ε α).outcome = .ok a := rfl
@[simp] theorem journal_pure (a : α) : (Pure.pure a : Reading ε α).journal = [] := rfl
@[simp] theorem outcome_fail (e : ε) : (fail e : Reading ε α).outcome = .error e :=
  rfl
@[simp] theorem journal_fail (e : ε) : (fail e : Reading ε α).journal = [] := rfl
@[simp] theorem outcome_log (line : Log.Line) : (log line : Reading ε Unit).outcome = .ok () := rfl
@[simp] theorem journal_log (line : Log.Line) :
    (log line : Reading ε Unit).journal = [.logged line] := rfl

/-- The outcome of a sequence is the sequence of the outcomes. -/
@[simp] theorem outcome_bind (x : Reading ε α) (f : α → Reading ε β) :
    (x >>= f).outcome = x.outcome >>= fun a => (f a).outcome := by
  show (bind x f).outcome = _
  unfold bind
  cases x.outcome <;> rfl

theorem journal_bind_ok {x : Reading ε α} {a : α} (h : x.outcome = .ok a) (f : α → Reading ε β) :
    (x >>= f).journal = x.journal ++ (f a).journal := by
  show (bind x f).journal = _
  simp [bind, h]

theorem journal_bind_error {x : Reading ε α} {e : ε} (h : x.outcome = .error e)
    (f : α → Reading ε β) : (x >>= f).journal = x.journal := by
  show (bind x f).journal = _
  simp [bind, h]

end Reading

namespace Repository

/-- Asks one question and takes down what the repository logs meanwhile. -/
def ask {α : Type} (r : Repository) (query : Query) (answer : Except Failure α) :
    Reading Failure α :=
  ⟨.asked query :: (r.lines query).map .logged, answer⟩

def askHead (r : Repository) : Reading Failure (Option ObjectId) := r.ask .head r.head

def askTags (r : Repository) (start : String) : Reading Failure (List TagRef) :=
  r.ask (.tags start) (r.tags start)

def askPeel (r : Repository) (tag : TagRef) : Reading Failure (Option ObjectId) :=
  r.ask (.peel tag) (r.peel tag)

def askParents (r : Repository) (commit : ObjectId) : Reading Failure (List ObjectId) :=
  r.ask (.parents commit) (r.parents commit)

def askTagger (r : Repository) (tag : TagRef) : Reading Failure (Option Instant) :=
  r.ask (.tagger tag) (r.tagger tag)

def askClean (r : Repository) : Reading Failure Bool := r.ask .clean r.clean

def askBranch (r : Repository) : Reading Failure String := r.ask .branch r.branch

end Repository

end TagVersion
