import Mathlib.Tactic.SplitIfs
import TagVersion.Details
import TagVersion.Proofs.Description
import TagVersion.Proofs.ObjectId
import TagVersion.Proofs.Outcome
import TagVersion.Proofs.Prefix

/-!
The details that a description makes: what is read back from its written form, completed by what is
known of the tip and the work tree.
-/

namespace TagVersion.Details

open Outcome

/-- The details of a described tip, once its version, last tag and distance are known. -/
def ofNamed (d : Description) (isClean : Bool) (branch : String)
    (named : String × Option String × Nat) : Details where
  version := marked isClean named.1
  lastTag := named.2.1
  commitDistance := named.2.2
  hash := d.head.short hashLength
  fullHash := d.head.text
  branch
  isCleanTag := isClean && named.2.2 == 0 && named.2.1.isSome

lemma marked_eq (isClean : Bool) (version : String) :
    marked isClean version = version ++ if isClean then "" else ".dirty" := by
  cases isClean with
  | true => exact String.append_empty.symm
  | false => rfl

variable {p : Prefix} {d : Description} {isClean : Bool} {branch : String}

lemma ofDescription_some (p : Prefix) (d : Description) (isClean : Bool) (branch : String) :
    ofDescription p (some d) isClean branch = (named p d).map (ofNamed d isClean branch) := by
  simp only [ofDescription]
  cases named p d <;> rfl

lemma named_of_no_tag (htag : d.tag = none) : named p d = .ok (d.shortHash, none, 0) := by
  simp [named, htag]

lemma named_of_zero {tag : String} (htag : d.tag = some tag) (hzero : d.distance.toNat = 0) :
    named p d = .ok (p.strip d.text, some (p.strip d.text), 0) := by
  simp [named, htag, Description.distance_eq_zero_iff, hzero]

lemma named_of_pos {tag : String} (htag : d.tag = some tag) (hpos : 0 < d.distance.toNat) :
    named p d = (Description.parse (p.strip d.text)).map fun parts =>
      (p.strip d.text, some parts.tag, parts.distance) := by
  have hne : d.distance ≠ 0 := Description.distance_eq_zero_iff.not.mpr (Nat.ne_of_gt hpos)
  simp only [named, htag, if_neg hne]
  cases Description.parse (p.strip d.text) <;> rfl

/-- The only error is that a written description cannot be read back. -/
lemma named_eq_error {e : VersionError} (h : named p d = .error e) :
    e = .malformedDescription (p.strip d.text) := by
  cases htag : d.tag with
  | none => simp [named_of_no_tag htag] at h
  | some tag =>
    rcases Nat.eq_zero_or_pos d.distance.toNat with hzero | hpos
    · simp [named_of_zero htag hzero] at h
    · rw [named_of_pos htag hpos, map_eq_error_iff] at h
      exact Description.eq_of_parse_eq_error h

lemma ofDescription_ne_repository (p : Prefix) (description : Option Description)
    (isClean : Bool) (branch : String) (e : Repository.Failure) :
    ofDescription p description isClean branch ≠ .error (.repository e) := by
  cases description with
  | none => simp [ofDescription]
  | some d =>
    rw [ofDescription_some, Ne, map_eq_error_iff]
    intro hnamed
    simpa using named_eq_error hnamed

/-- What is written behind the tag of a tip: nothing where the tag sits on the tip itself. -/
def behind (distance : Nat) (hash : String) : String :=
  if distance = 0 then "" else "-" ++ toString distance ++ "-g" ++ hash

lemma head?_behind (distance : Nat) (hash : String) :
    (behind distance hash).toList.head? ≠ some 'v' := by
  unfold behind
  split_ifs <;> simp

lemma text_of_tag {tag : String} (htag : d.tag = some tag) :
    d.text = tag ++ behind d.distance.toNat d.shortHash := by
  unfold Description.text behind
  rw [htag]
  dsimp only
  simp only [Description.distance_eq_zero_iff]
  split_ifs
  · rw [String.append_empty]
  · simp [Description.joined, String.append_assoc]

/-- What follows a tag stays behind it when the prefix is taken off. -/
lemma strip_text {tag : String} (htag : d.tag = some tag) (hstart : p.text.toList <+: tag.toList) :
    p.strip d.text = p.strip tag ++ behind d.distance.toNat d.shortHash := by
  rw [text_of_tag htag, Prefix.strip_append hstart (head?_behind _ _)]

lemma append_behind {distance : Nat} (hpos : 0 < distance) (tag hash : String) :
    tag ++ behind distance hash = Description.joined tag distance hash := by
  simp [behind, Nat.ne_of_gt hpos, Description.joined, String.append_assoc]

/-- The tag and the distance are read back from the written description, though the prefix is taken
off the description as a whole. Only a line feed is in the way. -/
lemma named_eq {tag : String} (htag : d.tag = some tag) (hstart : p.text.toList <+: tag.toList)
    (hhex : ∀ c ∈ d.shortHash.toList, Hex.isDigit c = true)
    (hlen : 3 ≤ d.shortHash.toList.length) :
    named p d =
      if 0 < d.distance.toNat ∧ '\n' ∈ tag.toList then
        .error (.malformedDescription (p.strip tag ++ behind d.distance.toNat d.shortHash))
      else .ok (p.strip tag ++ behind d.distance.toNat d.shortHash, some (p.strip tag),
        d.distance.toNat) := by
  rcases Nat.eq_zero_or_pos d.distance.toNat with hzero | hpos
  · rw [named_of_zero htag hzero, strip_text htag hstart]
    simp [behind, hzero]
  · rw [named_of_pos htag hpos, strip_text htag hstart, append_behind hpos]
    by_cases hfeed : '\n' ∈ tag.toList
    · rw [if_pos ⟨hpos, hfeed⟩, Description.parse_joined_of_feed hhex hlen
        ((Prefix.feed_mem_strip_iff hstart).mpr hfeed)]
      rfl
    · rw [if_neg fun h => hfeed h.2, Description.parse_joined hhex hlen d.distance.toNat_lt
        ((Prefix.feed_mem_strip_iff hstart).not.mpr hfeed)]
      rfl

/-- **The tag and the distance are read back** wherever the tag holds no line feed. -/
theorem named_of_tag {tag : String} (htag : d.tag = some tag)
    (hstart : p.text.toList <+: tag.toList) (hfeed : '\n' ∉ tag.toList)
    (hhex : ∀ c ∈ d.shortHash.toList, Hex.isDigit c = true)
    (hlen : 3 ≤ d.shortHash.toList.length) :
    named p d = .ok (p.strip tag ++ behind d.distance.toNat d.shortHash, some (p.strip tag),
      d.distance.toNat) := by
  rw [named_eq htag hstart hhex hlen, if_neg fun h => hfeed h.2]

/-- **Formatting recovers what was described.** The details of a tip that is described by a tag tell
the tag without the prefix, and the distance. Only a tag with a line feed below the tip makes them
fail. Away from the tag, all three parts of the description are read back from the version. -/
theorem ofDescription_recovers {p : Prefix} {tag : String}
    (hstart : p.text.toList <+: tag.toList) (distance : UInt32) (head : ObjectId)
    (isClean : Bool) (branch : String) :
    let n := distance.toNat
    let hash := String.ofList (head.text.toList.take 7)
    let version := p.strip tag ++ if n = 0 then "" else "-" ++ toString n ++ "-g" ++ hash
    let outcome := ofDescription p (some ⟨some tag, distance, hash, head⟩) isClean branch
    (∀ e, outcome = .error e ↔
      e = .malformedDescription version ∧ 0 < n ∧ '\n' ∈ tag.toList) ∧
    (¬ (0 < n ∧ '\n' ∈ tag.toList) →
      outcome = .ok {
        version := version ++ if isClean then "" else ".dirty"
        lastTag := some (p.strip tag)
        commitDistance := n
        hash := String.ofList (head.text.toList.take 10)
        fullHash := head.text
        branch
        isCleanTag := isClean && n == 0 } ∧
      (0 < n → Description.parse version = .ok ⟨p.strip tag, n, hash⟩)) := by
  intro n hash version outcome
  have hhex : ∀ c ∈ hash.toList, Hex.isDigit c = true := fun _ => ObjectId.isDigit_of_mem_short
  have hlen : 3 ≤ hash.toList.length := by
    show 3 ≤ (head.short 7).toList.length
    rw [head.length_short (by decide)]
    decide
  let d : Description := ⟨some tag, distance, hash, head⟩
  have hnamed : named p d = _ := named_eq (d := d) rfl hstart hhex hlen
  have houtcome : outcome = (named p d).map _ := ofDescription_some p d isClean branch
  rw [hnamed] at houtcome
  by_cases hfail : 0 < n ∧ '\n' ∈ tag.toList
  · rw [if_pos hfail] at houtcome
    refine ⟨fun e => ?_, fun hok => absurd hfail hok⟩
    rw [houtcome, and_iff_left hfail]
    exact ⟨fun h => (Except.error.inj h).symm, fun h => h ▸ rfl⟩
  · rw [if_neg hfail] at houtcome
    refine ⟨fun e => ?_, fun _ => ⟨?_, fun hpos => ?_⟩⟩
    · rw [houtcome]
      exact iff_of_false (by simp [Except.map]) fun h => hfail h.2
    · rw [houtcome]
      simp only [Except.map, ofNamed, marked_eq, Option.isSome_some, Bool.and_true]
      rfl
    · have hversion : version = Description.joined (p.strip tag) n hash :=
        append_behind hpos (p.strip tag) hash
      have hfeed : '\n' ∉ (p.strip tag).toList :=
        (Prefix.feed_mem_strip_iff hstart).not.mpr fun hfeed => hfail ⟨hpos, hfeed⟩
      rw [hversion, Description.parse_joined hhex hlen distance.toNat_lt hfeed]

theorem ofDescription_recovers_nested :
    let p : Prefix := ⟨"a@", by decide⟩
    let tag := "a@va@1-2-gabc"
    let head : ObjectId := ⟨"0123456789abcdef0123456789abcdef01234567", by decide⟩
    let version := "a@1-2-gabc-12-g0123456"
    p.text.toList <+: tag.toList ∧
      ofDescription p (some ⟨some tag, 12, "0123456", head⟩) false "main" =
        .ok ⟨version ++ ".dirty", some "a@1-2-gabc", 12, "0123456789", head.text, "main", false⟩ ∧
      Description.parse version = .ok ⟨"a@1-2-gabc", 12, "0123456"⟩ := by
  intro p tag head version
  have hstart : p.text.toList <+: tag.toList := by decide
  obtain ⟨hdetails, hparse⟩ := (ofDescription_recovers hstart 12 head false "main").2 (by decide)
  have hshort : String.ofList (head.text.toList.take 7) = "0123456" := by decide
  have hhash : String.ofList (head.text.toList.take 10) = "0123456789" := by decide
  have hstrip : p.strip tag = "a@1-2-gabc" := by decide
  rw [hshort, hstrip] at hparse
  rw [hshort, hhash, hstrip] at hdetails
  exact ⟨hstart, hdetails, hparse (by decide)⟩

end TagVersion.Details
