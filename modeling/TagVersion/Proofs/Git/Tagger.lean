import TagVersion.Git.Store
import TagVersion.Proofs.Describe.Stop
import TagVersion.Proofs.Outcome

/-!
Tags that say when they were made. A second counts as far as the calendar reaches; a tag object
that says one beyond it is taken as saying none, and so is earlier than all others.
-/

namespace TagVersion

namespace Instant

/-- The seconds that the calendar reaches. -/
def InCalendar (seconds : Int) : Prop := firstSecond ≤ seconds ∧ seconds ≤ lastSecond

instance (seconds : Int) : Decidable (InCalendar seconds) := inferInstanceAs (Decidable (_ ∧ _))

variable {a b : Int}

lemma ofSeconds?_of_inCalendar (h : InCalendar a) : ofSeconds? a = some ⟨a, 0⟩ := if_pos h

lemma ofSeconds?_eq_none_iff : ofSeconds? a = none ↔ ¬ InCalendar a := by
  simp [ofSeconds?, InCalendar]

lemma before_ofSeconds?_iff :
    Before (ofSeconds? a) (ofSeconds? b) ↔ InCalendar b ∧ (InCalendar a → a < b) := by
  by_cases hb : InCalendar b
  · by_cases ha : InCalendar a
    · simp [ofSeconds?_of_inCalendar, ha, hb, Before]
    · simp [ofSeconds?_of_inCalendar hb, ofSeconds?_eq_none_iff.mpr ha, ha, hb, Before]
  · simp [ofSeconds?_eq_none_iff.mpr hb, hb, Before]

lemma ofSeconds?_eq_iff :
    ofSeconds? a = ofSeconds? b ↔ a = b ∨ ¬ InCalendar a ∧ ¬ InCalendar b := by
  by_cases ha : InCalendar a
  · by_cases hb : InCalendar b
    · simp [ofSeconds?_of_inCalendar, ha, hb]
    · have hne : a ≠ b := fun heq => hb (heq ▸ ha)
      simp [ofSeconds?_of_inCalendar ha, ofSeconds?_eq_none_iff.mpr hb, ha, hne]
  · rw [ofSeconds?_eq_none_iff.mpr ha, eq_comm, ofSeconds?_eq_none_iff]
    grind

end Instant

/-- What it takes for an annotated tag not to lose against another, told by their seconds. -/
lemma Tag.not_beats_iff {t u : Tag} {a b : Int} (ht : t.annotated = true)
    (hu : u.annotated = true) (htime : t.time = Instant.ofSeconds? a)
    (hutime : u.time = Instant.ofSeconds? b) :
    ¬ u.Beats t ↔
      (Instant.InCalendar b → Instant.InCalendar a ∧ b ≤ a) ∧
      (b = a ∨ ¬ Instant.InCalendar b ∧ ¬ Instant.InCalendar a →
        ¬ Bytes.ofText u.name < Bytes.ofText t.name) := by
  rw [Tag.Beats, ht, hu, htime, hutime, Instant.before_ofSeconds?_iff, Instant.ofSeconds?_eq_iff]
  grind

namespace Git

open Outcome

/-- The second that a tag object says it was made in. -/
def Object.seconds? : Object → Option Int
  | .tag _ _ seconds => seconds
  | _ => none

namespace Store

open Instant (InCalendar ofSeconds?)

variable {s : Store} {status : Except Int Status} {start : String} {tip c stop : ObjectId}
  {refs : List TagRef} {ref : TagRef} {passed : List ObjectId} {object : Object} {seconds : Int}

/-! ### Where a tag leads -/

lemma readObject_eq_ok_iff {id : ObjectId} :
    s.readObject id = .ok object ↔ checkId id = .ok () ∧ s.read id = .ok object := by
  rw [readObject, bind_eq_ok_iff, mapError_eq_ok_iff]
  exact ⟨fun ⟨(), h⟩ => h, fun h => ⟨(), h⟩⟩

lemma peel_eq_ok_iff : s.peel ref = .ok (some c) ↔ ∃ object,
    s.readObject ref.target = .ok object ∧ s.lead s.bound ref.target object = .ok (some c) := by
  simp only [peel, bind_eq_ok_iff, mapError_eq_ok_iff]

lemma readAs_eq_ok_iff {kind : Kind} {id : ObjectId} :
    s.readAs kind id = .ok object ↔ s.read id = .ok object ∧ object.kind = kind := by
  rw [readAs, bind_eq_ok_iff]
  constructor
  · rintro ⟨read, hread, hkind⟩
    split_ifs at hkind with h
    · obtain rfl := Except.ok.inj hkind
      exact ⟨hread, h⟩
  · rintro ⟨hread, hkind⟩
    exact ⟨object, hread, if_pos hkind⟩

/-- Where a chain of tag objects leads there is a commit. -/
lemma exists_commit_of_lead {bound : Nat} {id : ObjectId} (hread : s.read id = .ok object)
    (h : s.lead bound id object = .ok (some c)) :
    ∃ tree parents, s.read c = .ok (.commit tree parents) := by
  induction bound generalizing id object with
  | zero =>
    cases object with
    | commit tree parents =>
      obtain rfl : id = c := by simpa [lead] using h
      exact ⟨tree, parents, hread⟩
    | tree | blob | tag => simp [lead] at h
  | succ bound ih =>
    cases object with
    | commit tree parents =>
      obtain rfl : id = c := by simpa [lead] using h
      exact ⟨tree, parents, hread⟩
    | tree | blob => simp [lead] at h
    | tag target kind seconds =>
      obtain ⟨next, hnext, hlead⟩ := bind_eq_ok_iff.mp h
      exact ih (readAs_eq_ok_iff.mp hnext).1 hlead

/-- The reference points at a tag object. -/
def Annotated (s : Store) (ref : TagRef) : Prop :=
  ∃ object, s.read ref.target = .ok object ∧ object.kind = .tag

/-- A tag leads to its commit by way of a tag object if it does not point at the commit itself. -/
lemma annotated_iff (h : s.peel ref = .ok (some c)) : s.Annotated ref ↔ ref.target ≠ c := by
  obtain ⟨object, hobject, hlead⟩ := peel_eq_ok_iff.mp h
  have hread := (readObject_eq_ok_iff.mp hobject).2
  have hann : s.Annotated ref ↔ object.kind = .tag := by simp [Annotated, hread]
  obtain ⟨tree, parents, hcommit⟩ := exists_commit_of_lead hread hlead
  rw [hann]
  cases object with
  | commit => simpa [lead, Object.kind] using hlead
  | tree | blob => simp [lead] at hlead
  | tag target kind time =>
    refine iff_of_true rfl fun heq => ?_
    rw [heq, hcommit] at hread
    cases hread

/-! ### When a tag was made -/

lemma tagger_eq (s : Store) (ref : TagRef) :
    s.tagger ref = (s.readObject ref.target).map fun object => object.seconds?.bind ofSeconds? := by
  unfold tagger
  cases s.readObject ref.target with
  | error e => rfl
  | ok object => cases object <;> rfl

lemma tagger_of_readObject (h : s.readObject ref.target = .ok object) :
    s.tagger ref = .ok (object.seconds?.bind ofSeconds?) := by
  rw [tagger_eq, h]
  rfl

/-- The time is missing where nothing is said of it within the calendar. -/
lemma tagger_eq_none_iff : s.tagger ref = .ok none ↔ ∃ object,
    s.readObject ref.target = .ok object ∧
      ∀ seconds, object.seconds? = some seconds → ¬ InCalendar seconds := by
  simp only [tagger_eq, map_eq_ok_iff, Option.bind_eq_none_iff, Instant.ofSeconds?_eq_none_iff]

lemma exists_tagger {found : Option ObjectId} (h : s.peel ref = .ok found) :
    ∃ time, s.tagger ref = .ok time := by
  obtain ⟨object, hobject, -⟩ := bind_eq_ok_iff.mp h
  exact ⟨_, tagger_of_readObject hobject⟩

/-- A reference to a tag object that leads to a commit and says in which second it was made. -/
structure Signed (s : Store) (c : ObjectId) (ref : TagRef) (seconds : Int) : Prop where
  peel : s.peel ref = .ok (some c)
  stored : ∃ object, s.read ref.target = .ok object ∧ object.seconds? = some seconds

lemma Signed.annotated (h : s.Signed c ref seconds) : s.Annotated ref := by
  obtain ⟨object, hread, hseconds⟩ := h.stored
  refine ⟨object, hread, ?_⟩
  cases object with
  | tag => rfl
  | commit | tree | blob => cases hseconds

lemma Signed.unique {seconds' : Int} (h : s.Signed c ref seconds) (h' : s.Signed c ref seconds') :
    seconds = seconds' := by
  obtain ⟨object, hread, hseconds⟩ := h.stored
  obtain ⟨object', hread', hseconds'⟩ := h'.stored
  obtain rfl := Except.ok.inj (hread.symm.trans hread')
  exact Option.some.inj (hseconds.symm.trans hseconds')

lemma Signed.tagger (h : s.Signed c ref seconds) : s.tagger ref = .ok (ofSeconds? seconds) := by
  obtain ⟨object, hobject, -⟩ := peel_eq_ok_iff.mp h.peel
  obtain ⟨stored, hread, hseconds⟩ := h.stored
  obtain rfl : stored = object :=
    Except.ok.inj (hread.symm.trans (readObject_eq_ok_iff.mp hobject).2)
  rw [tagger_of_readObject hobject, hseconds]
  rfl

/-- A signed tag as it takes part in the choice. -/
lemma Signed.leads (h : s.Signed c ref seconds) :
    (s.repository status).Leads ref ⟨ref.name, ref.target, c, true, ofSeconds? seconds⟩ where
  name := rfl
  target := rfl
  peel := h.peel
  annotated := iff_of_true rfl ((annotated_iff h.peel).mp h.annotated)
  tagger _ := h.tagger
  plain := nofun

/-- A signed tag that leads to a commit is the latest of those there: none that counts is later,
and none that counts as made at the same time has a name that comes first by its bytes. -/
structure Latest (s : Store) (counts : Int → Prop) (refs : List TagRef) (c : ObjectId)
    (ref : TagRef) (seconds : Int) : Prop where
  mem : ref ∈ refs
  signed : s.Signed c ref seconds
  latest : ∀ other ∈ refs, ∀ time, s.Signed c other time →
    counts time → counts seconds ∧ time ≤ seconds
  first : ∀ other ∈ refs, ∀ time, s.Signed c other time →
    time = seconds ∨ ¬ counts time ∧ ¬ counts seconds →
      ¬ Bytes.ofText other.name < Bytes.ofText ref.name

/-- The walk from the tip stops at a commit that annotated tags lead to, and all of these say in
which second they were made. -/
structure StopsSigned (s : Store) (status : Except Int Status) (start : String) (tip : ObjectId)
    (refs : List TagRef) (passed : List ObjectId) (stop : ObjectId) : Prop where
  stops : (s.repository status).StopsAt start tip refs passed stop
  annotated : ∃ ref ∈ refs, s.peel ref = .ok (some stop) ∧ s.Annotated ref
  signed : ∀ ref ∈ refs, s.peel ref = .ok (some stop) → s.Annotated ref →
    ∃ seconds, s.Signed stop ref seconds

/-- The tip is told by the tag that is the latest as far as the calendar reaches. -/
lemma exists_latest (h : s.StopsSigned status start tip refs passed stop) :
    ∃ ref seconds, s.Latest InCalendar refs stop ref seconds ∧
      ((s.repository status).describe start).outcome =
        .ok (some ⟨some ref.name, .ofNat passed.length, tip.short 7, tip⟩) := by
  have htagger : ∀ ref ∈ refs, ∃ time, s.tagger ref = .ok time := fun ref href =>
    exists_tagger (h.stops.peel ref href).choose_spec
  obtain ⟨ref, href, t, hleads, rfl, hout, hbest⟩ :=
    Repository.describe_of_stopsAt h.stops htagger
  obtain ⟨one, hone, hpeel, hann⟩ := h.annotated
  obtain ⟨time, hsigned⟩ := h.signed one hone hpeel hann
  -- A plain tag would lose against the annotated one.
  have ht : t.annotated = true := by
    by_contra hplain
    exact hbest one hone _ hsigned.leads rfl (.inl ⟨rfl, Bool.eq_false_iff.mpr hplain⟩)
  obtain ⟨seconds, hseconds⟩ := h.signed ref href hleads.peel
    ((annotated_iff hleads.peel).mpr (hleads.annotated.mp ht))
  have htime : t.time = ofSeconds? seconds :=
    Except.ok.inj ((hleads.tagger ht).symm.trans hseconds.tagger)
  have hnot : ∀ other ∈ refs, ∀ time, s.Signed t.peeled other time →
      (InCalendar time → InCalendar seconds ∧ time ≤ seconds) ∧
      (time = seconds ∨ ¬ InCalendar time ∧ ¬ InCalendar seconds →
        ¬ Bytes.ofText other.name < Bytes.ofText ref.name) := by
    intro other hother time hs
    rw [← hleads.name]
    exact (Tag.not_beats_iff ht rfl htime rfl).mp (hbest other hother _ hs.leads rfl)
  exact ⟨ref, seconds, ⟨href, hseconds, fun other hother time hs => (hnot other hother time hs).1,
    fun other hother time hs => (hnot other hother time hs).2⟩, hout⟩

/-- **The latest tag tells the tip**, as far as the calendar reaches, and a time is missing only
where a tag object says none that the calendar reaches. The distance is the number of commits passed
if that can be counted. -/
theorem describe_latest (h : s.StopsSigned status start tip refs passed stop) :
    (∃ ref seconds d, s.Latest InCalendar refs stop ref seconds ∧
      ((s.repository status).describe start).outcome = .ok (some d) ∧
      d.tag = some ref.name ∧ d.shortHash = tip.short 7 ∧ d.head = tip ∧
      (passed.length < 2 ^ 32 → d.distance.toNat = passed.length)) ∧
    ∀ ref, s.tagger ref = .ok none ↔ ∃ object, s.readObject ref.target = .ok object ∧
      ∀ seconds, object.seconds? = some seconds → ¬ InCalendar seconds := by
  obtain ⟨ref, seconds, hlatest, hout⟩ := exists_latest h
  exact ⟨⟨ref, seconds, _, hlatest, hout, rfl, rfl, rfl, UInt32.toNat_ofNat_of_lt'⟩,
    fun _ => tagger_eq_none_iff⟩

/-! ### Two tags on one commit -/

/-- Tags whose names are texts, with the prefix and in order, are listed as they are. -/
lemma tagRefs_ofText (hstart : ∀ ref ∈ refs, start.toList <+: ref.name.toList)
    (hsorted : refs.Pairwise fun a b => (compare a.name b.name != .gt) = true) :
    tagRefs start (refs.map fun ref => (Bytes.ofText ref.name, .direct ref.target)) = refs := by
  have hnamed : named start (refs.map fun ref => (Bytes.ofText ref.name, .direct ref.target)) =
      refs.map fun ref => (ref.name, .direct ref.target) := by
    rw [named, List.filterMap_map, List.filterMap_eq_map_iff_forall_eq_some]
    intro ref href
    simpa [Bytes.text?_ofText] using hstart ref href
  have hrefs : (refs.filterMap fun ref => some (⟨ref.name, ref.target⟩ : TagRef)) = refs :=
    List.filterMap_some
  simp only [tagRefs, hnamed, List.filterMap_map, Function.comp_def, hrefs]
  exact List.mergeSort_of_pairwise hsorted

namespace Twice

def root : ObjectId := ⟨"7000000000000000000000000000000000000000", by decide⟩

def commit : ObjectId := ⟨"c000000000000000000000000000000000000000", by decide⟩

def one : TagRef := ⟨"1", "0a00000000000000000000000000000000000000", by decide⟩

def two : TagRef := ⟨"2", "0b00000000000000000000000000000000000000", by decide⟩

/-- A single commit, and two annotated tags on it that were made in the seconds `a` and `b`. -/
def store (a b : Int) : Store where
  read id :=
    if id = commit then .ok (.commit root [])
    else if id = one.target then .ok (.tag commit .commit (some a))
    else if id = two.target then .ok (.tag commit .commit (some b))
    else .error Code.notFound
  known := [commit, one.target, two.target]
  mem_known i o h := by
    split_ifs at h <;> simp [*]
  tip := .ok (some ⟨branches ++ Bytes.ofText "main", commit⟩)
  tags := .ok ([one, two].map fun ref => (Bytes.ofText ref.name, .direct ref.target))

variable (a b : Int)

lemma signed_one : (store a b).Signed commit one a := ⟨rfl, _, rfl, rfl⟩

lemma signed_two : (store a b).Signed commit two b := ⟨rfl, _, rfl, rfl⟩

lemma list_store : (store a b).list "" = .ok [one, two] :=
  congrArg Except.ok (tagRefs_ofText (by simp) (by decide))

lemma stopsSigned (status : Except Int Status) :
    (store a b).StopsSigned status "" commit [one, two] [] commit where
  stops := {
    head := rfl
    tags := list_store a b
    peel ref href := by
      rcases List.mem_pair.mp href with rfl | rfl
      · exact ⟨_, (signed_one a b).peel⟩
      · exact ⟨_, (signed_two a b).peel⟩
    passes := .stop List.mem_cons_self (signed_one a b).peel }
  annotated := ⟨one, List.mem_cons_self, (signed_one a b).peel, (signed_one a b).annotated⟩
  signed ref href _ _ := by
    rcases List.mem_pair.mp href with rfl | rfl
    · exact ⟨a, signed_one a b⟩
    · exact ⟨b, signed_two a b⟩

end Twice

theorem describe_latest_twice :
    (Twice.store 1 2).StopsSigned (.ok {}) "" Twice.commit [Twice.one, Twice.two] []
      Twice.commit ∧
    ∃ ref seconds, (Twice.store 1 2).Latest InCalendar [Twice.one, Twice.two] Twice.commit
      ref seconds ∧
      (((Twice.store 1 2).repository (.ok {})).describe "").outcome =
        .ok (some ⟨some ref.name, 0, Twice.commit.short 7, Twice.commit⟩) := by
  have hstops := Twice.stopsSigned 1 2 (.ok {})
  obtain ⟨⟨ref, seconds, d, hlatest, hout, htag, hshort, hhead, hdistance⟩, -⟩ :=
    describe_latest hstops
  have hzero : d.distance = 0 := UInt32.toNat_inj.mp (hdistance (by decide))
  obtain rfl : d = ⟨some ref.name, 0, Twice.commit.short 7, Twice.commit⟩ := by
    rw [← htag, ← hzero, ← hshort, ← hhead]
  exact ⟨hstops, ref, seconds, hlatest, hout⟩

/-- Beyond the calendar a later tag loses to an earlier one, and its time is missing though it is
stored. -/
theorem not_describe_latest_beyond :
    let s := Twice.store 1 9000000000000
    let refs := [Twice.one, Twice.two]
    s.StopsSigned (.ok {}) "" Twice.commit refs [] Twice.commit ∧
      (¬ ∃ ref seconds d, s.Latest (fun _ => True) refs Twice.commit ref seconds ∧
        ((s.repository (.ok {})).describe "").outcome = .ok (some d) ∧ d.tag = some ref.name) ∧
      s.tagger Twice.two = .ok none ∧
      ∃ object, s.readObject Twice.two.target = .ok object ∧
        object.seconds? = some 9000000000000 := by
  intro s refs
  have hstops := Twice.stopsSigned 1 9000000000000 (.ok {})
  refine ⟨hstops, ?_, rfl, _, rfl, rfl⟩
  rintro ⟨ref, seconds, d, hlatest, hout, htag⟩
  obtain ⟨ref', seconds', hlatest', hout'⟩ := exists_latest hstops
  obtain rfl := Option.some.inj (Except.ok.inj (hout.symm.trans hout'))
  obtain rfl : ref' = ref :=
    List.inj_on_of_nodup_map (by decide) hlatest'.mem hlatest.mem (Option.some.inj htag)
  obtain rfl := hlatest.signed.unique hlatest'.signed
  have hle := (hlatest.latest _ (by simp [refs]) _ (Twice.signed_two _ _) trivial).2
  have hin := (hlatest'.latest _ (by simp) _ (Twice.signed_one _ _) (by decide)).1
  exact absurd (hle.trans hin.2) (by decide)

end Store

end Git

end TagVersion
