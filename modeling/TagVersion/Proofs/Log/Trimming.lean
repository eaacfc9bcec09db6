import Mathlib.Data.List.Induction
import Mathlib.Data.List.TakeWhile
import Mathlib.Tactic.Lemma
import Mathlib.Tactic.SplitIfs
import TagVersion.Log.Filter
import TagVersion.Proofs.Text.Case

/-!
Filters and the white space at the ends of their texts. The reader of a directive looks past white
space for the first `=` but counts from the very start, so a directive with `=` is read only where
it has no white space at its ends; one without is a target or a level in any case. So what is read
with white space at its ends is also read without it, part by part.
-/

namespace TagVersion

namespace Blank

lemma trimStart_cons {c : Char} (hc : isBlank c = true) (cs : List Char) :
    trimStart (c :: cs) = trimStart cs := List.dropWhile_cons_of_pos hc

lemma trimEnd_append_singleton {c : Char} (hc : isBlank c = true) (cs : List Char) :
    trimEnd (cs ++ [c]) = trimEnd cs := by
  rw [trimEnd, trimEnd, List.reverse_append, List.reverse_singleton, List.singleton_append,
    List.dropWhile_cons_of_pos hc]

lemma trimEnd_append_of_not {c : Char} (hc : ¬ isBlank c = true) {cs : List Char} :
    trimEnd (cs ++ [c]) = cs ++ [c] := by
  rw [trimEnd, List.reverse_append, List.reverse_singleton, List.singleton_append,
    List.dropWhile_cons_of_neg hc, List.reverse_cons, List.reverse_reverse]

lemma trim_cons {c : Char} (hc : isBlank c = true) (cs : List Char) : trim (c :: cs) = trim cs := by
  rw [trim, trim, trimStart_cons hc]

lemma trim_append_singleton {c : Char} (hc : isBlank c = true) (cs : List Char) :
    trim (cs ++ [c]) = trim cs := by
  unfold trim trimStart
  rw [List.dropWhile_append]
  split_ifs with hempty
  · rw [List.isEmpty_iff.mp hempty, List.dropWhile_cons_of_pos hc]
    rfl
  · exact trimEnd_append_singleton hc _

lemma exists_trimStart_eq (cs : List Char) : ∃ back, trimStart cs = trim cs ++ back ∧
    ∀ c ∈ back, isBlank c = true := by
  refine ⟨((trimStart cs).reverse.takeWhile isBlank).reverse, ?_, fun c hc => ?_⟩
  · rw [trim, trimEnd, ← List.reverse_append, List.takeWhile_append_dropWhile, List.reverse_reverse]
  · exact List.mem_takeWhile_imp (List.mem_reverse.mp hc)

/-- Only white space is taken off. -/
lemma exists_eq_trim (cs : List Char) : ∃ front back, cs = front ++ (trim cs ++ back) ∧
    (∀ c ∈ front, isBlank c = true) ∧ ∀ c ∈ back, isBlank c = true := by
  obtain ⟨back, hback, hblank⟩ := exists_trimStart_eq cs
  refine ⟨cs.takeWhile isBlank, back, ?_, fun c hc => List.mem_takeWhile_imp hc, hblank⟩
  rw [← hback, trimStart, List.takeWhile_append_dropWhile]

lemma mem_trim_iff {c : Char} (hc : isBlank c = false) {cs : List Char} :
    c ∈ trim cs ↔ c ∈ cs := by
  obtain ⟨front, back, heq, hfront, hback⟩ := exists_eq_trim cs
  have hnotFront : c ∉ front := fun hmem => by simp [hfront c hmem] at hc
  have hnotBack : c ∉ back := fun hmem => by simp [hback c hmem] at hc
  constructor
  · intro hmem
    rw [heq]
    simp [hmem]
  · intro hmem
    rw [heq] at hmem
    simpa [hnotFront, hnotBack] using hmem

/-- What a text keeps when a blank is taken off at one of its ends, it keeps without all of them. -/
theorem trim_induction {P : List Char → Prop} {cs : List Char}
    (hcons : ∀ c cs, isBlank c = true → P (c :: cs) → P cs)
    (happend : ∀ cs c, isBlank c = true → P (cs ++ [c]) → P cs) (h : P cs) : P (trim cs) := by
  have hstart : P (trimStart cs) := by
    induction cs with
    | nil => exact h
    | cons c cs ih =>
      by_cases hc : isBlank c = true
      · rw [trimStart_cons hc]
        exact ih (hcons c cs hc h)
      · rwa [trimStart, List.dropWhile_cons_of_neg hc]
  have hend : ∀ ds, P ds → P (trimEnd ds) := by
    intro ds hds
    induction ds using List.reverseRecOn with
    | nil => exact hds
    | append_singleton ds c ih =>
      by_cases hc : isBlank c = true
      · rw [trimEnd_append_singleton hc]
        exact ih (happend ds c hc hds)
      · rwa [trimEnd_append_of_not hc]
  exact hend _ hstart

lemma trim_eq_self {cs : List Char} (hhead : ∀ c rest, cs = c :: rest → isBlank c = false)
    (hlast : ∀ rest c, cs = rest ++ [c] → isBlank c = false) : trim cs = cs := by
  have hstart : trimStart cs = cs := by
    cases cs with
    | nil => rfl
    | cons c rest => exact List.dropWhile_cons_of_neg (by simp [hhead c rest rfl])
  rw [trim, hstart]
  rcases List.eq_nil_or_concat cs with rfl | ⟨rest, c, rfl⟩
  · rfl
  · rw [List.concat_eq_append] at hlast ⊢
    exact trimEnd_append_of_not (by simp [hlast rest c rfl])

/-- What is left starts with something. -/
lemma isBlank_of_trim_eq_cons {cs rest : List Char} {c : Char} (h : trim cs = c :: rest) :
    isBlank c = false := by
  obtain ⟨back, hback, -⟩ := exists_trimStart_eq cs
  have hhead := List.head?_dropWhile_not isBlank cs
  rw [← trimStart, hback, h] at hhead
  exact hhead

/-- It ends with something as well. -/
lemma isBlank_of_trim_eq_append {cs rest : List Char} {c : Char} (h : trim cs = rest ++ [c]) :
    isBlank c = false := by
  have hdrop : (trimStart cs).reverse.dropWhile isBlank = c :: rest.reverse := by
    rw [← List.reverse_inj, ← trimEnd, ← trim, h]
    simp
  have hhead := List.head?_dropWhile_not isBlank (trimStart cs).reverse
  rw [hdrop] at hhead
  exact hhead

end Blank

namespace Log

open Blank

/-! ### Levels -/

lemma Threshold.mem_name {t : Threshold} {c : Char} (h : c ∈ t.name.toList) :
    isBlank c = false ∧ c ≠ '=' := by
  have hall : t.name.toList.all (fun c => !isBlank c && c != '=') := by
    cases t with
    | off => decide
    | upTo level => cases level <;> decide
  simpa using List.all_eq_true.mp hall c h

lemma toLower_of_isBlank {c : Char} (h : isBlank c = true) : c.toLower = c := by
  unfold isBlank at h
  simp only [Bool.or_eq_true, Bool.and_eq_true, decide_eq_true_eq, beq_iff_eq] at h
  exact Case.toLower_eq_self (by omega)

lemma isDigit_of_isBlank {c : Char} (h : isBlank c = true) : c.isDigit = false := by
  by_contra hdigit
  have hbounds : 48 ≤ c.toNat ∧ c.toNat ≤ 57 := by
    simpa [Char.isDigit, UInt32.le_iff_toNat_le] using hdigit
  unfold isBlank at h
  simp only [Bool.or_eq_true, Bool.and_eq_true, decide_eq_true_eq, beq_iff_eq] at h
  omega

/-- What a level is written with. -/
lemma Threshold.mem_of_ofChars? {cs : List Char} {t : Threshold} {c : Char}
    (h : Threshold.ofChars? cs = some t) (hc : c ∈ cs) :
    (∃ t : Threshold, c.toLower ∈ t.name.toList) ∨ c = '+' ∨ c.isDigit = true := by
  unfold Threshold.ofChars? at h
  dsimp only at h
  split at h
  · next t' hfind =>
    have hname : t'.name = String.ofList (cs.map Char.toLower) := by
      simpa using List.find?_some hfind
    refine .inl ⟨t', ?_⟩
    rw [hname, String.toList_ofList]
    exact List.mem_map_of_mem hc
  · obtain ⟨n, hnatural, -⟩ := Option.bind_eq_some_iff.mp h
    refine .inr ?_
    unfold Decimal.natural? at hnatural
    dsimp only at hnatural
    split_ifs at hnatural with hsign hdigits hdigits
    · obtain ⟨rest, rfl⟩ := List.head?_eq_some_iff.mp hsign
      rcases List.mem_cons.mp hc with rfl | hrest
      · exact .inl rfl
      · exact .inr (List.all_eq_true.mp (Bool.and_eq_true_iff.mp hdigits).2 c hrest)
    · exact .inr (List.all_eq_true.mp (Bool.and_eq_true_iff.mp hdigits).2 c hc)

/-- A level holds neither white space nor `=`. -/
lemma Threshold.clean_of_ofChars? {cs : List Char} {t : Threshold} {c : Char}
    (h : Threshold.ofChars? cs = some t) (hc : c ∈ cs) : isBlank c = false ∧ c ≠ '=' := by
  rcases mem_of_ofChars? h hc with ⟨t', hname⟩ | rfl | hdigit
  · obtain ⟨hblank, hne⟩ := mem_name hname
    refine ⟨?_, ?_⟩
    · by_contra hc'
      rw [toLower_of_isBlank (by simpa using hc')] at hblank
      exact hc' hblank
    · rintro rfl
      exact hne rfl
  · decide
  · refine ⟨?_, ?_⟩
    · by_contra hc'
      rw [isDigit_of_isBlank (by simpa using hc')] at hdigit
      exact absurd hdigit (by decide)
    · rintro rfl
      exact absurd hdigit (by decide)

namespace Directive

/-! ### Cutting after a number of bytes -/

lemma foldl_utf8Size (cs : List Char) (n : Nat) :
    cs.foldl (fun n c => n + c.utf8Size) n = n + size cs := by
  unfold size
  induction cs generalizing n with
  | nil => rfl
  | cons c cs ih =>
    rw [List.foldl_cons, List.foldl_cons, ih (n + c.utf8Size), ih (0 + c.utf8Size)]
    omega

lemma size_cons (c : Char) (cs : List Char) : size (c :: cs) = c.utf8Size + size cs := by
  rw [size, List.foldl_cons, foldl_utf8Size, Nat.zero_add]

lemma size_append (cs ds : List Char) : size (cs ++ ds) = size cs + size ds := by
  rw [size, List.foldl_append, foldl_utf8Size, ← size]

lemma size_pos {cs : List Char} (h : cs ≠ []) : 0 < size cs := by
  obtain ⟨c, rest, rfl⟩ := List.exists_cons_of_ne_nil h
  rw [size_cons]
  have hc := c.utf8Size_pos
  omega

lemma cutAt?_succ_cons (n : Nat) (c : Char) (cs : List Char) :
    cutAt? (n + 1) (c :: cs) =
      if c.utf8Size ≤ n + 1 then
        (cutAt? (n + 1 - c.utf8Size) cs).map fun (u, v) => (c :: u, v)
      else none := rfl

lemma cutAt?_append (u v : List Char) : cutAt? (size u) (u ++ v) = some (u, v) := by
  induction u with
  | nil => cases v <;> rfl
  | cons c u ih =>
    obtain ⟨n, hn⟩ := Nat.exists_eq_succ_of_ne_zero (Nat.ne_of_gt (size_pos (List.cons_ne_nil c u)))
    have hsize := size_cons c u
    have hle : c.utf8Size ≤ n + 1 := by omega
    have hrest : n + 1 - c.utf8Size = size u := by omega
    rw [hn, List.cons_append, Nat.succ_eq_add_one, cutAt?_succ_cons, if_pos hle, hrest, ih]
    rfl

lemma of_cutAt? {n : Nat} {cs u v : List Char} (h : cutAt? n cs = some (u, v)) :
    cs = u ++ v ∧ size u = n := by
  induction cs generalizing n u with
  | nil =>
    cases n with
    | zero =>
      obtain ⟨rfl, rfl⟩ := Prod.mk.inj (Option.some.inj h)
      exact ⟨rfl, rfl⟩
    | succ n => simp [cutAt?] at h
  | cons c cs ih =>
    cases n with
    | zero =>
      obtain ⟨rfl, rfl⟩ := Prod.mk.inj (Option.some.inj h)
      exact ⟨rfl, rfl⟩
    | succ n =>
      rw [cutAt?_succ_cons] at h
      split_ifs at h with hle
      obtain ⟨⟨w, v'⟩, hcut, heq⟩ := Option.map_eq_some_iff.mp h
      obtain ⟨rfl, rfl⟩ := Prod.mk.inj heq
      obtain ⟨rfl, hsize⟩ := ih hcut
      refine ⟨rfl, ?_⟩
      rw [size_cons, hsize]
      omega

/-! ### Directives -/

/-- A part of a filter's text is a directive. -/
def Reads (part : List Char) : Prop := ∃ d, ofChars part = .ok d

variable {part : List Char}

/-- A directive without a level of its own only has to start as one. -/
lemma reads_iff_of_notMem (h : '=' ∉ part) :
    Reads part ↔ ∃ c rest, trim part = c :: rest ∧ isStart c = true := by
  have hnot : '=' ∉ trim part := (mem_trim_iff (by decide)).not.mpr h
  unfold Reads ofChars
  cases htrim : trim part with
  | nil => simp
  | cons c rest =>
    rw [htrim] at hnot
    have hwhole : (c :: rest).takeWhile (· != '=') = c :: rest := by
      refine List.takeWhile_eq_self_iff.mpr fun x hx => ?_
      simpa using fun heq : x = '=' => hnot (heq ▸ hx)
    dsimp only
    rw [hwhole, if_pos rfl]
    cases hstart : isStart c with
    | false => simp [hstart]
    | true => cases Threshold.ofChars? part <;> simp [hstart]

lemma exists_eq_takeWhile_append {cs : List Char} (h : '=' ∈ cs) :
    ∃ after, cs = cs.takeWhile (· != '=') ++ '=' :: after := by
  have hsplit := cs.takeWhile_append_dropWhile (p := (· != '='))
  have hhead := List.head?_dropWhile_not (· != '=') cs
  cases hdrop : cs.dropWhile (· != '=') with
  | nil =>
    rw [hdrop, List.append_nil] at hsplit
    simpa using List.takeWhile_eq_self_iff.mp hsplit '=' h
  | cons x after =>
    rw [hdrop] at hsplit hhead
    obtain rfl : x = '=' := by simpa using hhead
    exact ⟨after, hsplit.symm⟩

/-- A directive with a level of its own is cut where its first `=` seems to be. -/
lemma exists_cut_of_reads (h : Reads part) (hmem : '=' ∈ part) :
    ∃ target after, trim part = target ++ '=' :: after ∧
      ∃ u x level, cutAt? (size target) part = some (u, x :: level) ∧
        (level = [] ∨ ∃ t, Threshold.ofChars? level = some t) := by
  have hin : '=' ∈ trim part := (mem_trim_iff (by decide)).mpr hmem
  obtain ⟨d, hd⟩ := h
  unfold ofChars at hd
  cases htrim : trim part with
  | nil => simp [htrim] at hin
  | cons c rest =>
    rw [htrim] at hin hd
    dsimp only at hd
    obtain ⟨after, hafter⟩ := exists_eq_takeWhile_append hin
    refine ⟨_, after, hafter, ?_⟩
    split_ifs at hd with hstart hlength
    · have hlength' := congrArg List.length hafter
      simp only [List.length_append, List.length_cons] at hlength hlength'
      omega
    · split at hd
      · next u x level hcut =>
        refine ⟨u, x, level, hcut, ?_⟩
        split_ifs at hd with hempty
        · exact .inl (List.isEmpty_iff.mp hempty)
        · split at hd
          · next t hlevel => exact .inr ⟨t, hlevel⟩
          · simp at hd
      · simp at hd

/-- A cut that comes too early leaves behind what should have been cut off. -/
lemma mem_of_early_cut {front tail u level : List Char} {a x : Char}
    (h : front ++ a :: tail = u ++ x :: level) (hlt : size u < size front) : a ∈ level := by
  rcases List.append_eq_append_iff.mp h with ⟨more, rfl, -⟩ | ⟨between, rfl, hlevel⟩
  · rw [size_append] at hlt
    omega
  · cases between with
    | nil => simp at hlt
    | cons y between =>
      obtain ⟨-, rfl⟩ := List.cons.inj hlevel
      simp

lemma level_clean {level : List Char} {c : Char}
    (h : level = [] ∨ ∃ t, Threshold.ofChars? level = some t) (hc : c ∈ level) :
    isBlank c = false ∧ c ≠ '=' := by
  rcases h with rfl | ⟨t, ht⟩
  · simp at hc
  · exact Threshold.clean_of_ofChars? ht hc

/-- A directive with `=` has no white space at its ends: in front it would make the cut come too
early, so that `=` would land in the level, and behind it would be part of the level. -/
lemma exists_level_of_reads (h : Reads part) (hmem : '=' ∈ part) :
    ∃ target level, part = target ++ '=' :: level ∧ (∀ c ∈ level, isBlank c = false) ∧
      ∀ c rest, part = c :: rest → isBlank c = false := by
  obtain ⟨target, after, htrim, u, x, level, hcut, hlevel⟩ := exists_cut_of_reads h hmem
  obtain ⟨front, back, heq, hfront, -⟩ := exists_eq_trim part
  obtain ⟨hpart, hsize⟩ := of_cutAt? hcut
  have hwhole : (front ++ target) ++ '=' :: (after ++ back) = part := by
    rw [heq, htrim]
    simp
  have hnil : front = [] := by
    by_contra hne
    have hlt : size u < size (front ++ target) := by
      have hpos := size_pos hne
      rw [size_append]
      omega
    exact (level_clean hlevel (mem_of_early_cut (hwhole.trans hpart) hlt)).2 rfl
  subst hnil
  rw [← hwhole, List.nil_append, cutAt?_append] at hcut
  obtain ⟨-, htail⟩ := Prod.mk.inj (Option.some.inj hcut)
  obtain ⟨-, rfl⟩ := List.cons.inj htail
  refine ⟨target, _, hwhole.symm, fun c hc => (level_clean hlevel hc).1, fun c rest hcons => ?_⟩
  cases htrim' : trim part with
  | nil => simp [htrim'] at htrim
  | cons c' rest' =>
    rw [hcons, ← hcons, htrim'] at heq
    obtain ⟨rfl, -⟩ := List.cons.inj (hcons.symm.trans heq)
    exact isBlank_of_trim_eq_cons htrim'

lemma trim_ne_nil_of_reads (h : Reads part) : trim part ≠ [] := by
  intro hnil
  obtain ⟨d, hd⟩ := h
  simp [ofChars, hnil] at hd

lemma trim_eq_of_reads (h : Reads part) (hmem : '=' ∈ part) : trim part = part := by
  obtain ⟨target, level, heq, hlevel, hhead⟩ := exists_level_of_reads h hmem
  refine trim_eq_self hhead fun rest c hlast => ?_
  rw [heq] at hlast
  rcases List.eq_nil_or_concat level with rfl | ⟨level, last, rfl⟩
  · obtain ⟨-, hc⟩ := List.append_inj' hlast rfl
    obtain rfl := List.singleton_inj.mp hc
    decide
  · rw [List.concat_eq_append, ← List.cons_append, ← List.append_assoc] at hlast
    obtain ⟨-, hc⟩ := List.append_inj' hlast rfl
    obtain rfl := List.singleton_inj.mp hc
    exact hlevel last (by simp)

/-- White space at the ends matters only to a part with `=`. -/
lemma reads_of_trim_eq {other : List Char} (h : Reads other) (heq : trim other = trim part)
    (hkeep : '=' ∈ part → trim part = part) : Reads part := by
  have hmem : '=' ∈ other ↔ '=' ∈ part := by
    rw [← mem_trim_iff (by decide), heq, mem_trim_iff (by decide)]
  by_cases hpart : '=' ∈ part
  · rwa [← hkeep hpart, ← heq, trim_eq_of_reads h (hmem.mpr hpart)]
  · rw [reads_iff_of_notMem hpart, ← heq]
    exact (reads_iff_of_notMem (hmem.not.mpr hpart)).mp h

lemma reads_of_cons {c : Char} (hc : isBlank c = true) (h : Reads (c :: part)) : Reads part := by
  refine reads_of_trim_eq h (trim_cons hc part) fun hmem => ?_
  have hkept := trim_eq_of_reads h (List.mem_cons_of_mem c hmem)
  simp [isBlank_of_trim_eq_cons hkept] at hc

lemma reads_of_append_singleton {c : Char} (hc : isBlank c = true) (h : Reads (part ++ [c])) :
    Reads part := by
  refine reads_of_trim_eq h (trim_append_singleton hc part) fun hmem => ?_
  have hkept := trim_eq_of_reads h (List.mem_append_left [c] hmem)
  simp [isBlank_of_trim_eq_append hkept] at hc

end Directive

/-! ### Filters -/

namespace Filter

open Directive

/-- Every part of a filter's text that is not empty is a directive. -/
def Reads (cs : List Char) : Prop := ∀ part ∈ cs.splitOn ',', part ≠ [] → Directive.Reads part

variable {cs : List Char} {c : Char}

lemma exists_mapM_eq_ok_iff {α β ε : Type} {f : α → Except ε β} {l : List α} :
    (∃ ys, l.mapM f = .ok ys) ↔ ∀ x ∈ l, ∃ y, f x = .ok y := by
  induction l with
  | nil => simp [pure, Except.pure]
  | cons x l ih =>
    rw [List.forall_mem_cons, ← ih, List.mapM_cons]
    cases hx : f x with
    | error e => simp [bind, Except.bind]
    | ok y => cases l.mapM f <;> simp [bind, Except.bind, pure, Except.pure]

lemma exists_ofText_iff {text : String} : (∃ f, ofText text = .ok f) ↔ Reads text.toList := by
  have hmap : (∃ f, ofText text = .ok f) ↔
      ∃ ds, ((text.toList.splitOn ',').filter (!·.isEmpty)).mapM ofChars = .ok ds := by
    unfold ofText
    dsimp only
    cases ((text.toList.splitOn ',').filter (!·.isEmpty)).mapM ofChars <;> simp [Except.map]
  rw [hmap, exists_mapM_eq_ok_iff]
  simp [Reads, Directive.Reads]

lemma splitOn_cons (hc : c ≠ ',') (cs : List Char) :
    (c :: cs).splitOn ',' = (cs.splitOn ',').modifyHead (List.cons c) := by
  rw [List.splitOn_cons_eq_if_modifyHead, if_neg (by simpa using hc)]

lemma exists_splitOn_append (hc : c ≠ ',') (cs : List Char) : ∃ parts last,
    cs.splitOn ',' = parts ++ [last] ∧ (cs ++ [c]).splitOn ',' = parts ++ [last ++ [c]] := by
  induction cs with
  | nil => exact ⟨[], [], rfl, splitOn_cons hc []⟩
  | cons x cs ih =>
    obtain ⟨parts, last, hcs, happend⟩ := ih
    by_cases hx : x = ','
    · subst hx
      refine ⟨[] :: parts, last, ?_, ?_⟩
      · rw [List.splitOn_cons_eq_if_modifyHead, hcs]
        rfl
      · rw [List.cons_append, List.splitOn_cons_eq_if_modifyHead, happend]
        rfl
    · rw [List.cons_append, splitOn_cons hx, splitOn_cons hx, hcs, happend]
      cases parts with
      | nil => exact ⟨[], x :: last, rfl, rfl⟩
      | cons first parts => exact ⟨(x :: first) :: parts, last, rfl, rfl⟩

lemma ne_comma_of_isBlank (hc : isBlank c = true) : c ≠ ',' := by
  rintro rfl
  exact absurd hc (by decide)

/-- White space in front goes to the first part. -/
lemma reads_of_cons (hc : isBlank c = true) (h : Reads (c :: cs)) : Reads cs := by
  unfold Reads at h ⊢
  rw [splitOn_cons (ne_comma_of_isBlank hc)] at h
  cases hcs : cs.splitOn ',' with
  | nil => exact absurd hcs (by simp [List.splitOn_eq_splitOnP, List.splitOnP_ne_nil])
  | cons first parts =>
    rw [hcs, List.modifyHead_cons, List.forall_mem_cons] at h
    refine List.forall_mem_cons.mpr ⟨fun _ => ?_, h.2⟩
    exact Directive.reads_of_cons hc (h.1 (List.cons_ne_nil c first))

/-- White space behind goes to the last part. -/
lemma reads_of_append_singleton (hc : isBlank c = true) (h : Reads (cs ++ [c])) : Reads cs := by
  obtain ⟨parts, last, hcs, happend⟩ := exists_splitOn_append (ne_comma_of_isBlank hc) cs
  unfold Reads at h ⊢
  rw [happend, List.forall_mem_append] at h
  rw [hcs, List.forall_mem_append]
  obtain ⟨hparts, hlast⟩ := h
  rw [List.forall_mem_singleton] at hlast
  refine ⟨hparts, List.forall_mem_singleton.mpr fun _ => ?_⟩
  exact Directive.reads_of_append_singleton hc (hlast (by simp))

lemma reads_trim (h : Reads cs) : Reads (trim cs) :=
  trim_induction (fun _ _ => reads_of_cons) (fun _ _ => reads_of_append_singleton) h

/-- **A filter without the white space at its ends is a filter.** -/
theorem exists_ofText_trim {text : String} {f : Filter} (h : ofText text = .ok f) :
    ∃ f', ofText (String.ofList (trim text.toList)) = .ok f' := by
  have hreads : Reads text.toList := exists_ofText_iff.mp ⟨f, h⟩
  rw [exists_ofText_iff, String.toList_ofList]
  exact reads_trim hreads

/-- The converse fails: a level in a directive may have no white space behind it. -/
example : (ofText "app=info").toOption.isSome = true ∧ (ofText "app=info ").toOption = none := by
  decide

end Filter

end Log

end TagVersion
