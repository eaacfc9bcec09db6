import TagVersion.History
import TagVersion.Proofs.Cache.Keeper
import TagVersion.Proofs.Cache.Recall

/-!
Histories that grow while their versions are resolved by way of a cache. What is told under a key
is what the history came to when the key was first resolved, whatever has been built since, and is
told without a question. Failures are of the moment, and leave nothing behind.
-/

namespace TagVersion

namespace History

/-- How many questions have been asked does not show in any answer. -/
lemma repository_with_calls (h : History) (calls : Nat) :
    { h with calls }.repository = h.repository := rfl

variable {h : History} {cache : Cache Cache.Key Details} {root : String} {p : Prefix}

lemma resolveCached_of_peek {d : Details} (hpeek : cache.peek (.of root p) = some d) :
    h.resolveCached cache root p = ((cache, .ok d), h) := by
  have hget := cache.get_of_peek (m := StateM History) (ε := VersionError) hpeek
    fun h => h.read (h.repository.resolve p)
  exact congrFun hget h

lemma resolveCached_of_not_peek (hpeek : cache.peek (.of root p) = none) :
    h.resolveCached cache root p =
      let (outcome, h') := h.read (h.repository.resolve p)
      ((cache.settle (.of root p) outcome, outcome), h') := by
  have hget := cache.get_of_not_peek (m := StateM History) (ε := VersionError) hpeek
    fun h => h.read (h.repository.resolve p)
  exact congrFun hget h

end History

/-- A history and the cache that its versions are kept in. -/
structure Session where
  history : History := {}
  cache : Cache Cache.Key Details := .empty

namespace Session

open History

/-- A step of building, or the resolving of a version for a root and a prefix. -/
inductive Move where
  | build (step : Step)
  | resolve (root start : String)

/-- Resolves a version by way of the cache, once the prefix is read. -/
def resolve (s : Session) (root start : String) : Session × Except VersionError Details :=
  match Prefix.ofText start with
  | .error e => (s, .error e)
  | .ok p =>
    let ((cache, outcome), history) := s.history.resolveCached s.cache root p
    (⟨history, cache⟩, outcome)

def next (s : Session) : Move → Session
  | .build step => { s with history := s.history.apply step }
  | .resolve root start => (s.resolve root start).1

/-- The reading of the history as it is now. -/
def reading (s : Session) (p : Prefix) : Reading VersionError Details :=
  s.history.repository.resolve p

/-- The session once the history has been read for a key. -/
def settle (s : Session) (root : String) (p : Prefix) : Session where
  history := { s.history with calls := s.history.calls + (s.reading p).asked.length }
  cache := s.cache.settle (.of root p) (s.reading p).outcome

variable {s : Session} {root start : String} {p : Prefix} {d : Details} {e : VersionError}
  {key : Cache.Key}

lemma resolve_of_ofText?_eq_none (h : Prefix.ofText? start = none) :
    s.resolve root start = (s, .error (.invalidPrefix start)) := by
  simp [resolve, Prefix.ofText, h]

lemma resolve_of_peek (h : Prefix.ofText? start = some p)
    (hpeek : s.cache.peek (.of root p) = some d) : s.resolve root start = (s, .ok d) := by
  simp [resolve, Prefix.ofText, h, History.resolveCached_of_peek hpeek]

lemma resolve_of_not_peek (h : Prefix.ofText? start = some p)
    (hpeek : s.cache.peek (.of root p) = none) :
    s.resolve root start = (s.settle root p, (s.reading p).outcome) := by
  simp only [resolve, Prefix.ofText, h, History.resolveCached_of_not_peek hpeek]
  rfl

/-- A failure comes of reading the history, and of nothing that is kept. -/
lemma resolve_eq_error (h : Prefix.ofText? start = some p)
    (herror : (s.resolve root start).2 = .error e) :
    s.cache.peek (.of root p) = none ∧ (s.reading p).outcome = .error e := by
  cases hpeek : s.cache.peek (.of root p) with
  | some d => simp [resolve_of_peek h hpeek] at herror
  | none => exact ⟨rfl, by rwa [resolve_of_not_peek h hpeek] at herror⟩

/-- Whether a move resolves a version under a key and is answered by some details. -/
def Tells (s : Session) : Move → Cache.Key → Details → Prop
  | .build _, _, _ => False
  | .resolve root start, key, d =>
    (∃ p, Prefix.ofText? start = some p ∧ key = .of root p) ∧ (s.resolve root start).2 = .ok d

lemma tells_resolve_iff (h : Prefix.ofText? start = some p) :
    s.Tells (.resolve root start) key d ↔
      key = .of root p ∧ (s.resolve root start).2 = .ok d := by
  simp [Tells, h]

/-- One move: a key keeps what it holds, and comes to hold what is told under it. -/
lemma peek_next_iff (s : Session) (m : Move) (key : Cache.Key) (d : Details) :
    (s.next m).cache.peek key = some d ↔
      s.cache.peek key = some d ∨ s.cache.peek key = none ∧ s.Tells m key d := by
  cases m with
  | build step => simp [next, Tells]
  | resolve root start =>
    cases h : Prefix.ofText? start with
    | none => simp [next, Tells, h, resolve_of_ofText?_eq_none h]
    | some p =>
      rw [tells_resolve_iff h]
      cases hpeek : s.cache.peek (.of root p) with
      | some kept =>
        rw [next, resolve_of_peek h hpeek]
        exact Cache.peek_iff_of_peek hpeek
      | none =>
        rw [next, resolve_of_not_peek h hpeek]
        exact Cache.peek_settle_iff hpeek

lemma eq_of_tells {m : Move} {kept : Details} (hpeek : s.cache.peek key = some kept)
    (htells : s.Tells m key d) : d = kept := by
  cases m with
  | build step => exact htells.elim
  | resolve root start =>
    obtain ⟨⟨p, hp, rfl⟩, hok⟩ := htells
    rw [resolve_of_peek hp hpeek] at hok
    exact (Except.ok.inj hok).symm

/-- A session keeps what it tells. -/
def keeper : Keeper Session Move Cache.Key Details where
  start := {}
  next := next
  kept s := s.cache.peek
  tells := Tells
  kept_start _ := rfl
  kept_next := peek_next_iff
  eq_of_tells _ _ _ _ _ := eq_of_tells

lemma distinct_resolve (hs : s.cache.Distinct) (root start : String) :
    (s.resolve root start).1.cache.Distinct := by
  cases h : Prefix.ofText? start with
  | none => rwa [resolve_of_ofText?_eq_none h]
  | some p =>
    cases hpeek : s.cache.peek (.of root p) with
    | some d => rwa [resolve_of_peek h hpeek]
    | none =>
      rw [resolve_of_not_peek h hpeek]
      exact hs.settle _ _

lemma distinct_run (moves : List Move) : (keeper.run moves).cache.Distinct := by
  refine Keeper.run_induction (P := fun s : Session => s.cache.Distinct) ?_ (fun s m h => ?_) moves
  · exact Cache.distinct_empty
  · cases m with
    | build step => exact h
    | resolve root start => exact distinct_resolve h root start

/-- What is answered hangs on what is kept and on the history, not on the questions asked so far. -/
lemma answer_congr {s' : Session} (hpeek : ∀ k, s'.cache.peek k = s.cache.peek k)
    (hreading : ∀ p, s'.reading p = s.reading p) (root start : String) :
    (s'.resolve root start).2 = (s.resolve root start).2 := by
  cases h : Prefix.ofText? start with
  | none => rw [resolve_of_ofText?_eq_none h, resolve_of_ofText?_eq_none h]
  | some p =>
    cases hkept : s.cache.peek (.of root p) with
    | some d => rw [resolve_of_peek h hkept, resolve_of_peek h ((hpeek _).trans hkept)]
    | none =>
      rw [resolve_of_not_peek h hkept, resolve_of_not_peek h ((hpeek _).trans hkept), hreading]

/-- A failure changes nothing but the number of questions asked. -/
lemma resolve_of_error (h : Prefix.ofText? start = some p)
    (herror : (s.resolve root start).2 = .error e) :
    (∀ k, (s.resolve root start).1.cache.peek k = s.cache.peek k) ∧
      ∀ p', (s.resolve root start).1.reading p' = s.reading p' := by
  obtain ⟨hpeek, houtcome⟩ := resolve_eq_error h herror
  rw [resolve_of_not_peek h hpeek]
  constructor
  · intro k
    rw [settle, houtcome]
    exact Cache.peek_settle_error _ k e
  · intro p'
    exact congrArg (·.resolve p') (repository_with_calls _ _)

/-- **A version is resolved once.** Any steps of building, any failures and any resolving by way of
one cache may come before. A prefix that is not allowed is refused, and nothing changes. Under a key
that has been told, the answer is the details that the history came to when they were first told,
and nothing changes, so that no question is asked. Under any other key the history is read as it is
now. A failure is that of the history as it is now; it leaves all that is kept and all answers as
they were, the key untold and the number of values as it was. That number is the number of keys that
have been told. -/
theorem resolve_snapshot (moves : List Move) (root start : String) :
    let s := keeper.run moves
    (Prefix.ofText? start = none →
      s.resolve root start = (s, .error (.invalidPrefix start))) ∧
    (∀ p, Prefix.ofText? start = some p →
      (keeper.Told (.of root p) moves → ∃ before move rest d, moves = before ++ move :: rest ∧
        (keeper.run before).Tells move (.of root p) d ∧ ¬ keeper.Told (.of root p) before ∧
          ((keeper.run before).reading p).outcome = .ok d ∧ s.resolve root start = (s, .ok d)) ∧
      (¬ keeper.Told (.of root p) moves →
        (s.resolve root start).2 = (s.reading p).outcome ∧
          (s.resolve root start).1.history.calls =
            s.history.calls + (s.reading p).asked.length) ∧
      ∀ e, (s.resolve root start).2 = .error e →
        (s.reading p).outcome = .error e ∧
          ¬ keeper.Told (.of root p) (moves ++ [.resolve root start]) ∧
          (∀ key, (s.resolve root start).1.cache.peek key = s.cache.peek key) ∧
          (∀ root' start', ((s.resolve root start).1.resolve root' start').2 =
            (s.resolve root' start').2) ∧
          (s.resolve root start).1.cache.size = s.cache.size) ∧
    ∃ keys : List Cache.Key, keys.Nodup ∧ (∀ key, key ∈ keys ↔ keeper.Told key moves) ∧
      s.cache.size = keys.length := by
  intro s
  refine ⟨resolve_of_ofText?_eq_none, fun p hp => ⟨?_, ?_, fun e herror => ?_⟩, ?_⟩
  · intro htold
    obtain ⟨d, hfirst⟩ := Keeper.told_iff.mp htold
    have hanswer := resolve_of_peek hp (keeper.kept_run_iff.mpr hfirst)
    obtain ⟨before, move, rest, hmoves, htells, hnot⟩ := hfirst
    have hbefore : (keeper.run before).cache.peek (.of root p) = none :=
      keeper.kept_run_eq_none_iff.mpr hnot
    refine ⟨before, move, rest, d, hmoves, htells, hnot, ?_, hanswer⟩
    cases move with
    | build step => exact htells.elim
    | resolve root₀ start₀ =>
      obtain ⟨⟨p₀, hp₀, hkey⟩, hok⟩ := htells
      obtain ⟨-, rfl⟩ := Cache.Key.of_eq_of_iff.mp hkey
      rwa [resolve_of_not_peek hp₀ (hkey ▸ hbefore)] at hok
  · intro hnot
    have hnone : s.cache.peek (.of root p) = none := keeper.kept_run_eq_none_iff.mpr hnot
    rw [resolve_of_not_peek hp hnone]
    exact ⟨rfl, rfl⟩
  · obtain ⟨hnone, houtcome⟩ := resolve_eq_error hp herror
    obtain ⟨hpeek, hreading⟩ := resolve_of_error hp herror
    refine ⟨houtcome, ?_, hpeek, answer_congr hpeek hreading, ?_⟩
    · rw [← keeper.kept_run_eq_none_iff, Keeper.run_append_singleton]
      exact (hpeek _).trans hnone
    · have hdistinct := distinct_run moves
      exact (distinct_resolve hdistinct root start).size_eq hdistinct hpeek
  · have hdistinct := distinct_run moves
    refine ⟨s.cache.keys, hdistinct.nodup_keys, fun key => ?_, (Cache.length_keys _).symm⟩
    rw [hdistinct.mem_keys_iff]
    exact keeper.exists_kept_run_iff

/-- A session in which a second tag is made, and questions fail, once a version has been resolved. -/
def retagged : List Move :=
  [.build .commitHead, .build (.lightweight "v1" (idOf 1)), .resolve "/r" "",
    .build .commitHead, .build (.lightweight "v2" (idOf 2)), .build (.failOn .head 1)]

theorem resolve_snapshot_retagged :
    keeper.Told (.of "/r/./" .empty) retagged ∧
      ∃ d, (keeper.run retagged).resolve "/r/./" "" = (keeper.run retagged, .ok d) ∧
        d.version = "1" := by
  have hempty : Prefix.ofText? "" = some .empty := rfl
  have hversion : ((keeper.run retagged).resolve "/r/./" "").2.toOption.map Details.version =
      some "1" := by decide
  have htold : keeper.Told (.of "/r/./" .empty) retagged :=
    keeper.exists_kept_run_iff.mp (Option.isSome_iff_exists.mp (by decide))
  obtain ⟨-, -, -, d, -, -, -, -, hanswer⟩ :=
    ((resolve_snapshot retagged "/r/./" "").2.1 .empty hempty).1 htold
  rw [hanswer] at hversion
  exact ⟨htold, d, hanswer, Option.some.inj hversion⟩

end Session

end TagVersion
