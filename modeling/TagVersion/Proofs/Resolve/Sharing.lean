import Mathlib.Data.List.Induction
import TagVersion.History
import TagVersion.Proofs.Cache.Cells
import TagVersion.Proofs.Cache.Keeper
import TagVersion.Proofs.Outcome
import TagVersion.Proofs.Prefix
import TagVersion.Resolver

/-!
Calls to one resolver, one after the other, while repositories and the paths to them change. The
clones of a resolver have its cache, so a call to a clone is a call to it. Values are shared by the
calls for one root and one prefix: to see which answers are one value, the resolver is watched with
its values in cells.
-/

namespace TagVersion

namespace Resolver

/-- A call to resolve a version, and how directories lead to repositories when it is made. -/
structure Call where
  surroundings : Surroundings
  directory : String
  tagPrefix : Option String

namespace Call

/-- The prefix of a call. To give none is to give the empty one. -/
def start (c : Call) : String := c.tagPrefix.getD ""

/-- The repository that the directory belongs to, and the root of its work tree in its canonical
spelling. -/
def tree (c : Call) : Except Repository.Failure (Repository × String) := do
  let opened ← c.surroundings.openAt c.directory
  let root ← c.surroundings.canonical opened.workTree
  return (opened.repository, root)

/-- Whether two calls are for one work tree, by its root, and for one prefix. -/
def Alike (a b : Call) : Prop :=
  (∃ x y, a.tree = .ok x ∧ b.tree = .ok y ∧ Path.parts x.2 = Path.parts y.2) ∧ a.start = b.start

/-- The prefix of a call is allowed, and its directory leads to a repository. -/
structure Finds (c : Call) (p : Prefix) (repository : Repository) (root : String) : Prop where
  start : Prefix.ofText? c.start = some p
  tree : c.tree = .ok (repository, root)

variable {a b c : Call} {p p' : Prefix} {repository repository' : Repository} {root root' : String}

lemma tree_eq_error_iff {e : Repository.Failure} : c.tree = .error e ↔
    c.surroundings.openAt c.directory = .error e ∨
      ∃ opened, c.surroundings.openAt c.directory = .ok opened ∧
        c.surroundings.canonical opened.workTree = .error e := by
  simp [tree, Outcome.bind_eq_error_iff, pure, Except.pure]

lemma tree_eq_ok_iff : c.tree = .ok (repository, root) ↔
    ∃ opened, c.surroundings.openAt c.directory = .ok opened ∧
      c.surroundings.canonical opened.workTree = .ok root ∧ opened.repository = repository := by
  simp [tree, Outcome.bind_eq_ok_iff, pure, Except.pure, and_comm]

lemma alike_iff (ha : a.Finds p repository root) (hb : b.Finds p' repository' root') :
    a.Alike b ↔ Cache.Key.of root p = .of root' p' := by
  have hstart : a.start = b.start ↔ p = p' := by
    rw [← Prefix.ofText?_eq_some_iff.mp ha.start, ← Prefix.ofText?_eq_some_iff.mp hb.start]
    obtain ⟨text, _⟩ := p
    obtain ⟨text', _⟩ := p'
    simp
  rw [Cache.Key.of_eq_of_iff, ← hstart]
  refine and_congr_left fun _ => ⟨?_, fun h => ⟨_, _, ha.tree, hb.tree, h⟩⟩
  rintro ⟨x, y, hx, hy, h⟩
  obtain rfl := Except.ok.inj (ha.tree.symm.trans hx)
  obtain rfl := Except.ok.inj (hb.tree.symm.trans hy)
  exact h

/-- A call is refused for its prefix, or comes to no repository, or finds one. -/
lemma found (c : Call) : Prefix.ofText? c.start = none ∨
    (∃ p e, Prefix.ofText? c.start = some p ∧ c.tree = .error e) ∨
    ∃ p repository root, c.Finds p repository root := by
  cases hstart : Prefix.ofText? c.start with
  | none => exact .inl rfl
  | some p =>
    cases htree : c.tree with
    | error e => exact .inr (.inl ⟨p, e, rfl, rfl⟩)
    | ok found => exact .inr (.inr ⟨p, found.1, found.2, hstart, htree⟩)

end Call

/-- The resolver after a call, and what the call is answered. What it writes to the log is left
out. -/
def answer (r : Resolver) (c : Call) : Resolver × Except VersionError Details :=
  ((r.resolve c.surroundings c.directory c.tagPrefix).run []).1

/-- A new resolver after some calls. -/
def after (calls : List Call) : Resolver := calls.foldl (fun r c => (r.answer c).1) {}

section

variable {r : Resolver} {c : Call} {p : Prefix} {repository : Repository} {root : String}

lemma answer_of_start (h : Prefix.ofText? c.start = none) :
    r.answer c = (r, .error (.invalidPrefix c.start)) := by
  have hstart : Prefix.ofText (c.tagPrefix.getD "") = .error (.invalidPrefix c.start) := by
    rw [Prefix.ofText, show Prefix.ofText? (c.tagPrefix.getD "") = none from h]
    rfl
  rw [answer, resolve, hstart]
  rfl

lemma ofText_of_start (h : Prefix.ofText? c.start = some p) :
    Prefix.ofText (c.tagPrefix.getD "") = .ok p := by
  rw [Prefix.ofText, show Prefix.ofText? (c.tagPrefix.getD "") = some p from h]

lemma answer_of_tree {e : Repository.Failure} (h : Prefix.ofText? c.start = some p)
    (htree : c.tree = .error e) : r.answer c = (r, .error (.repository e)) := by
  rw [answer, resolve, ofText_of_start h]
  rcases Call.tree_eq_error_iff.mp htree with hopen | ⟨opened, hopen, hroot⟩
  · simp only [hopen]
    rfl
  · simp only [hopen, hroot]
    rfl

/-- Once a call has found its repository, all that is left is to ask the cache. -/
lemma answer_of_finds (h : c.Finds p repository root) : r.answer c =
    let asked : StateM (List Log.Line) _ :=
      r.cache.get (.of root p) (performed (repository.resolve p))
    let (cache, outcome) := (asked.run [openedLine, lookedLine]).1
    (⟨cache⟩, outcome) := by
  obtain ⟨opened, hopen, hroot, rfl⟩ := Call.tree_eq_ok_iff.mp h.tree
  rw [answer, resolve, ofText_of_start h.start]
  simp only [hopen, hroot]
  rfl

lemma answer_of_peek (h : c.Finds p repository root) {d : Details}
    (hpeek : r.cache.peek (.of root p) = some d) : r.answer c = (r, .ok d) := by
  rw [answer_of_finds h, Cache.get_of_peek hpeek]
  rfl

lemma answer_of_not_peek (h : c.Finds p repository root)
    (hpeek : r.cache.peek (.of root p) = none) :
    r.answer c = (⟨r.cache.settle (.of root p) (repository.resolve p).outcome⟩,
      (repository.resolve p).outcome) := by
  rw [answer_of_finds h, Cache.get_of_not_peek hpeek]
  rfl

/-- What stands in the log already makes no difference to the answer. -/
lemma run_resolve_eq_answer (r : Resolver) (c : Call) (lines : List Log.Line) :
    ((r.resolve c.surroundings c.directory c.tagPrefix).run lines).1 = r.answer c := by
  unfold answer resolve
  cases Prefix.ofText (c.tagPrefix.getD "") with
  | error e => rfl
  | ok p =>
    cases c.surroundings.openAt c.directory with
    | error e => rfl
    | ok opened =>
      dsimp only
      cases c.surroundings.canonical opened.workTree with
      | error e => rfl
      | ok root =>
        dsimp only
        cases hpeek : r.cache.peek ⟨Path.parts root, p.text⟩ with
        | some d =>
          rw [Cache.get_of_peek hpeek]
          rfl
        | none =>
          rw [Cache.get_of_not_peek hpeek]
          rfl

end

/-- A resolver that is watched: its values lie in cells, and the cells are counted. -/
structure Watched where
  cache : Cache Cache.Key (Cell Details) := .empty
  cells : Nat := 0

namespace Watched

/-- What a resolver does with a call, where each value that is computed gets a cell of its own. -/
def answer (r : Watched) (c : Call) : Watched × Except VersionError (Cell Details) :=
  match Prefix.ofText c.start with
  | .error e => (r, .error e)
  | .ok p =>
    match c.tree with
    | .error e => (r, .error (.repository e))
    | .ok (repository, root) =>
      let asked : StateM Nat _ :=
        r.cache.get (.of root p) (Cell.allocate (repository.resolve p).outcome)
      let ((cache, outcome), cells) := asked.run r.cells
      (⟨cache, cells⟩, outcome)

/-- The resolver, no longer watched. -/
def forget (r : Watched) : Resolver := ⟨r.cache.map Cell.value⟩

variable {r : Watched} {c : Call} {p : Prefix} {repository : Repository} {root : String}
  {key : Cache.Key} {v : Cell Details}

lemma answer_of_start (h : Prefix.ofText? c.start = none) :
    r.answer c = (r, .error (.invalidPrefix c.start)) := by
  simp [answer, Prefix.ofText, h]

lemma answer_of_tree {e : Repository.Failure} (h : Prefix.ofText? c.start = some p)
    (htree : c.tree = .error e) : r.answer c = (r, .error (.repository e)) := by
  simp [answer, Prefix.ofText, h, htree]

lemma answer_of_peek (h : c.Finds p repository root)
    (hpeek : r.cache.peek (.of root p) = some v) : r.answer c = (r, .ok v) := by
  simp only [answer, Prefix.ofText, h.start, h.tree, Cache.get_of_peek hpeek]
  rfl

lemma answer_of_not_peek (h : c.Finds p repository root)
    (hpeek : r.cache.peek (.of root p) = none) :
    r.answer c =
      let allocated := (Cell.allocate (repository.resolve p).outcome).run r.cells
      (⟨r.cache.settle (.of root p) allocated.1, allocated.2⟩, allocated.1) := by
  simp only [answer, Prefix.ofText, h.start, h.tree, Cache.get_of_not_peek hpeek]
  rfl

/-- **To watch a resolver makes no difference** to what it keeps and to what it answers. -/
theorem answer_forget (r : Watched) (c : Call) :
    r.forget.answer c = ((r.answer c).1.forget, (r.answer c).2.map Cell.value) := by
  rcases c.found with hstart | ⟨p, e, hstart, htree⟩ | ⟨p, repository, root, h⟩
  · rw [Resolver.answer_of_start hstart, answer_of_start hstart]
    rfl
  · rw [Resolver.answer_of_tree hstart htree, answer_of_tree hstart htree]
    rfl
  · have hmap : r.forget.cache.peek (.of root p) = (r.cache.peek (.of root p)).map Cell.value :=
      Cache.peek_map _ _ _
    cases hpeek : r.cache.peek (.of root p) with
    | some v =>
      rw [Resolver.answer_of_peek h (hmap.trans (by rw [hpeek]; rfl)), answer_of_peek h hpeek]
      rfl
    | none =>
      rw [Resolver.answer_of_not_peek h (hmap.trans (by rw [hpeek]; rfl)),
        answer_of_not_peek h hpeek]
      have hvalue := Cell.map_value_allocate (repository.resolve p).outcome r.cells
      have hsettle := r.cache.map_settle Cell.value (.of root p)
        ((Cell.allocate (repository.resolve p).outcome).run r.cells).1
      rw [hvalue] at hsettle
      simp only [forget, hsettle, hvalue]

/-- Whether a call is for a key and is answered by some value. -/
def Tells (r : Watched) (c : Call) (key : Cache.Key) (v : Cell Details) : Prop :=
  (∃ p repository root, c.Finds p repository root ∧ key = .of root p) ∧ (r.answer c).2 = .ok v

lemma tells_iff (h : c.Finds p repository root) :
    r.Tells c key v ↔ key = .of root p ∧ (r.answer c).2 = .ok v := by
  refine and_congr_left fun _ => ⟨?_, fun hkey => ⟨p, repository, root, h, hkey⟩⟩
  rintro ⟨p', repository', root', h', rfl⟩
  obtain rfl := Option.some.inj (h.start.symm.trans h'.start)
  obtain ⟨-, rfl⟩ := Prod.mk.inj (Except.ok.inj (h.tree.symm.trans h'.tree))
  rfl

/-- One call: a key keeps what it holds, and comes to hold what is told under it. -/
lemma peek_answer_iff (r : Watched) (c : Call) (key : Cache.Key) (v : Cell Details) :
    (r.answer c).1.cache.peek key = some v ↔
      r.cache.peek key = some v ∨ r.cache.peek key = none ∧ r.Tells c key v := by
  rcases c.found with hstart | ⟨p, e, hstart, htree⟩ | ⟨p, repository, root, h⟩
  · simp [Tells, answer_of_start hstart]
  · simp [Tells, answer_of_tree hstart htree]
  · rw [tells_iff h]
    cases hpeek : r.cache.peek (.of root p) with
    | some kept =>
      rw [answer_of_peek h hpeek]
      exact Cache.peek_iff_of_peek hpeek
    | none =>
      rw [answer_of_not_peek h hpeek]
      exact Cache.peek_settle_iff hpeek

lemma eq_of_tells {kept : Cell Details} (hpeek : r.cache.peek key = some kept)
    (htells : r.Tells c key v) : v = kept := by
  obtain ⟨⟨p, repository, root, h, rfl⟩, hok⟩ := htells
  rw [answer_of_peek h hpeek] at hok
  exact (Except.ok.inj hok).symm

/-- A resolver keeps what it tells. -/
def keeper : Keeper Watched Call Cache.Key (Cell Details) where
  start := {}
  next r c := (r.answer c).1
  kept r := r.cache.peek
  tells := Tells
  kept_start _ := rfl
  kept_next := peek_answer_iff
  eq_of_tells _ _ _ _ _ := eq_of_tells

lemma forget_run (calls : List Call) : (keeper.run calls).forget = after calls := by
  induction calls using List.reverseRecOn with
  | nil => rfl
  | append_singleton calls c ih =>
    rw [Keeper.run_append_singleton, after, List.foldl_append, ← after, ← ih]
    exact (congrArg Prod.fst (answer_forget _ c)).symm

lemma apart_answer (h : r.cache.Apart r.cells) (c : Call) :
    (r.answer c).1.cache.Apart (r.answer c).1.cells := by
  rcases c.found with hstart | ⟨p, e, hstart, htree⟩ | ⟨p, repository, root, hc⟩
  · rwa [answer_of_start hstart]
  · rwa [answer_of_tree hstart htree]
  · cases hpeek : r.cache.peek (.of root p) with
    | some v => rwa [answer_of_peek hc hpeek]
    | none =>
      rw [answer_of_not_peek hc hpeek]
      exact h.settle _ _

lemma apart_run (calls : List Call) : (keeper.run calls).cache.Apart (keeper.run calls).cells :=
  Keeper.run_induction (P := fun r : Watched => r.cache.Apart r.cells) Cache.apart_empty
    (fun _ c h => apart_answer h c) calls

/-- Only a call that finds a repository is answered by a value, and then by one for its key. -/
lemma exists_tells (hok : (r.answer c).2 = .ok v) :
    ∃ p repository root, c.Finds p repository root ∧ r.Tells c (.of root p) v := by
  rcases c.found with hstart | ⟨p, e, hstart, htree⟩ | ⟨p, repository, root, h⟩
  · simp [answer_of_start hstart] at hok
  · simp [answer_of_tree hstart htree] at hok
  · exact ⟨p, repository, root, h, (tells_iff h).mpr ⟨rfl, hok⟩⟩

/-- What a key is first told is what its repository came to. -/
lemma outcome_of_tells (h : c.Finds p repository root)
    (hnone : r.cache.peek (.of root p) = none) (hok : (r.answer c).2 = .ok v) :
    (repository.resolve p).outcome = .ok v.value := by
  rw [answer_of_not_peek h hnone] at hok
  rw [← Cell.map_value_allocate (repository.resolve p).outcome r.cells]
  exact congrArg (Except.map Cell.value) hok

lemma answer_after (calls : List Call) (c : Call) :
    ((after calls).answer c).2 = ((keeper.run calls).answer c).2.map Cell.value := by
  rw [← forget_run, answer_forget]

lemma answer_after_eq_ok_iff {calls : List Call} {d : Details} :
    ((after calls).answer c).2 = .ok d ↔
      ∃ v, ((keeper.run calls).answer c).2 = .ok v ∧ v.value = d := by
  rw [answer_after]
  cases ((keeper.run calls).answer c).2 <;> simp [Except.map]

/-- Two calls are answered by one cell just if they are alike. -/
lemma address_eq_iff {before rest : List Call} {other : Call} {w : Cell Details}
    (hv : ((keeper.run before).answer other).2 = .ok v)
    (hw : ((keeper.run (before ++ other :: rest)).answer c).2 = .ok w) :
    v.address = w.address ↔ other.Alike c := by
  obtain ⟨p, repository, root, hother, htellsv⟩ := exists_tells hv
  obtain ⟨p', repository', root', hc, htellsw⟩ := exists_tells hw
  -- both values are kept once the later call has been answered
  have hkeptv : keeper.kept (keeper.run (before ++ other :: (rest ++ [c]))) (.of root p) = some v :=
    Keeper.kept_run_of_tells htellsv
  have hkeptw : keeper.kept (keeper.run (before ++ other :: (rest ++ [c]))) (.of root' p') =
      some w := by
    rw [← List.cons_append, ← List.append_assoc]
    exact Keeper.kept_run_of_tells htellsw
  rw [Call.alike_iff hother hc]
  constructor
  · exact (apart_run _).key_eq _ _ v w hkeptv hkeptw
  · intro hkey
    rw [hkey, hkeptw] at hkeptv
    rw [Option.some.inj hkeptv]

end Watched

/-- **Calls for one root and one prefix share one value.** Any calls may come before, and between
any two of them repositories and the ways to them may change. A prefix that is not allowed is
refused, wherever the call is made, and a directory that leads to no repository fails as it does at
that moment; neither changes what is kept. Any other answer by a value is what the repository came
to when a call like this one first succeeded. And a resolver that is watched, which answers just as
the other does, answers two calls by the value of one cell if and only if they are alike. -/
theorem resolve_shared (calls : List Call) (c : Call) :
    let r := after calls
    let watched := Watched.keeper.run calls
    (Prefix.ofText? c.start = none → r.answer c = (r, .error (.invalidPrefix c.start))) ∧
    (∀ p e, Prefix.ofText? c.start = some p → c.tree = .error e →
      r.answer c = (r, .error (.repository e))) ∧
    (∀ d, (r.answer c).2 = .ok d → ∃ before first rest p repository root,
      calls ++ [c] = before ++ first :: rest ∧ first.Alike c ∧ first.Finds p repository root ∧
        (repository.resolve p).outcome = .ok d ∧ ((after before).answer first).2 = .ok d ∧
        ∀ earlier other later, before = earlier ++ other :: later → other.Alike c →
          ∀ d', ((after earlier).answer other).2 ≠ .ok d') ∧
    (watched.forget = r ∧
      r.answer c = ((watched.answer c).1.forget, (watched.answer c).2.map Cell.value)) ∧
    ∀ before other rest v w, calls = before ++ other :: rest →
      ((Watched.keeper.run before).answer other).2 = .ok v → (watched.answer c).2 = .ok w →
      (v.address = w.address ↔ other.Alike c) := by
  intro r watched
  have hforget : watched.forget = r := Watched.forget_run calls
  refine ⟨answer_of_start, fun p e => answer_of_tree, fun d hd => ?_, ⟨hforget, ?_⟩, ?_⟩
  · obtain ⟨v, hv, rfl⟩ := Watched.answer_after_eq_ok_iff.mp hd
    obtain ⟨p, repository, root, hc, htells⟩ := Watched.exists_tells hv
    obtain ⟨before, first, rest, hcalls, ⟨⟨p₀, repository₀, root₀, hfirst, hkey⟩, hok⟩, hnot⟩ :=
      Watched.keeper.firstTold_of_tells htells
    have hnone := Watched.keeper.kept_run_eq_none_iff.mpr hnot
    refine ⟨before, first, rest, p₀, repository₀, root₀, hcalls,
      (Call.alike_iff hfirst hc).mpr hkey.symm, hfirst,
      Watched.outcome_of_tells hfirst (hkey ▸ hnone) hok,
      Watched.answer_after_eq_ok_iff.mpr ⟨v, hok, rfl⟩, ?_⟩
    intro earlier other later hbefore halike d' hd'
    obtain ⟨v', hv', -⟩ := Watched.answer_after_eq_ok_iff.mp hd'
    obtain ⟨p', repository', root', hother, htells'⟩ := Watched.exists_tells hv'
    rw [(Call.alike_iff hother hc).mp halike] at htells'
    exact hnot ⟨earlier, other, later, v', hbefore, htells'⟩
  · rw [← hforget, Watched.answer_forget]
  · intro before other rest v w hcalls hv hw
    subst hcalls
    exact Watched.address_eq_iff hv hw

/-- A root and a directory below it, where a history is kept. -/
def holding (h : History) : Surroundings where
  openAt directory :=
    if directory = "/r" ∨ directory = "/r/sub" then .ok ⟨"/r/", h.repository⟩
    else .error (.notFound directory)
  canonical path := .ok path

/-- A call at the root, when the tip carries a tag. -/
def atRoot : Call :=
  ⟨holding (.build {} [.commitHead, .lightweight "v1" (History.idOf 1)]), "/r", none⟩

/-- A call below the root, when another commit has been made. -/
def fromBelow : Call :=
  ⟨holding (.build {} [.commitHead, .lightweight "v1" (History.idOf 1), .commitHead]), "/r/sub",
    some ""⟩

theorem resolve_shared_below :
    atRoot.Alike fromBelow ∧ ∃ v w, ((Watched.keeper.run []).answer atRoot).2 = .ok v ∧
      ((Watched.keeper.run [atRoot]).answer fromBelow).2 = .ok w ∧
      v.address = w.address ∧ w.value.version = "1" := by
  have hstart : atRoot.start = fromBelow.start := by simp [Call.start, atRoot, fromBelow]
  have halike : atRoot.Alike fromBelow := ⟨⟨_, _, rfl, rfl, rfl⟩, hstart⟩
  refine ⟨halike, ?_⟩
  have hv : ((Watched.keeper.run []).answer atRoot).2.toOption.isSome := rfl
  have hw : ((Watched.keeper.run [atRoot]).answer fromBelow).2.toOption.map
      (fun w => w.value.version) = some "1" := rfl
  cases hokv : ((Watched.keeper.run []).answer atRoot).2 with
  | error e => simp [hokv, Except.toOption] at hv
  | ok v =>
    cases hokw : ((Watched.keeper.run [atRoot]).answer fromBelow).2 with
    | error e => simp [hokw, Except.toOption] at hw
    | ok w =>
      obtain ⟨-, -, -, -, hshared⟩ := resolve_shared [atRoot] fromBelow
      refine ⟨v, w, rfl, rfl, (hshared [] atRoot [] v w rfl hokv hokw).mpr halike, ?_⟩
      simpa [hokw, Except.toOption] using hw

end Resolver

end TagVersion
