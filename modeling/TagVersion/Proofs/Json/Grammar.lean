import TagVersion.Proofs.Json.Literal
import TagVersion.Proofs.Json.Number

/-!
The grammar of JSON, and that it is unambiguous: a text is a document of one value at most. What is
written for a phrase is told without a reader; where it ends can be told from what may follow it.
-/

namespace TagVersion.Json

/-- The values of JSON. The members of an object stay in the order in which they are written. -/
inductive Value where
  | null
  | boolean (b : Bool)
  | number (q : ℚ)
  | string (text : String)
  | array (items : List Value)
  | object (members : List (String × Value))

/-- What the rules of the grammar tell how to write. An element is a value with white space around
it. -/
inductive Phrase where
  | value (v : Value)
  | element (v : Value)
  | items (vs : List Value)
  | member (m : String × Value)
  | members (ms : List (String × Value))

/-- How phrases are written. -/
inductive Writes : Phrase → List Char → Prop where
  | null : Writes (.value .null) ['n', 'u', 'l', 'l']
  | true : Writes (.value (.boolean true)) ['t', 'r', 'u', 'e']
  | false : Writes (.value (.boolean false)) ['f', 'a', 'l', 's', 'e']
  | number {q : ℚ} {cs : List Char} : number? cs = some q → Writes (.value (.number q)) cs
  | string {text : String} {cs : List Char} : Spells text.toList cs →
      Writes (.value (.string text)) ('"' :: (cs ++ ['"']))
  | noItems {cs : List Char} : IsBlank cs → Writes (.value (.array [])) ('[' :: (cs ++ [']']))
  | array {vs : List Value} {cs : List Char} : Writes (.items vs) cs →
      Writes (.value (.array vs)) ('[' :: (cs ++ [']']))
  | noMembers {cs : List Char} : IsBlank cs → Writes (.value (.object [])) ('{' :: (cs ++ ['}']))
  | object {ms : List (String × Value)} {cs : List Char} : Writes (.members ms) cs →
      Writes (.value (.object ms)) ('{' :: (cs ++ ['}']))
  | element {v : Value} {before cs after : List Char} : IsBlank before → IsBlank after →
      Writes (.value v) cs → Writes (.element v) (before ++ (cs ++ after))
  | item {v : Value} {cs : List Char} : Writes (.element v) cs → Writes (.items [v]) cs
  | items {v : Value} {vs : List Value} {cs rest : List Char} : Writes (.element v) cs →
      Writes (.items vs) rest → Writes (.items (v :: vs)) (cs ++ ',' :: rest)
  | member {key : String} {v : Value} {before written between cs : List Char} : IsBlank before →
      IsBlank between → Spells key.toList written → Writes (.element v) cs →
      Writes (.member (key, v)) (before ++ '"' :: (written ++ '"' :: (between ++ ':' :: cs)))
  | lastMember {m : String × Value} {cs : List Char} : Writes (.member m) cs →
      Writes (.members [m]) cs
  | members {m : String × Value} {ms : List (String × Value)} {cs rest : List Char} :
      Writes (.member m) cs → Writes (.members ms) rest →
      Writes (.members (m :: ms)) (cs ++ ',' :: rest)

/-- Whether a text is a JSON document of a value. -/
def IsDocument (document : String) (v : Value) : Prop := Writes (.element v) document.toList

/-! ### What may follow -/

/-- Whether no number goes on here. -/
def Stops (rest : List Char) : Prop := ∀ c ∈ rest.head?, isNumeral c = false

/-- Whether an element ends here: at the end, or at a comma or a closing bracket. -/
def Closes (rest : List Char) : Prop := ∀ c ∈ rest.head?, c ∈ [',', ']', '}']

variable {v : Value} {cs cs' rest rest' before after text written : List Char} {c : Char}

lemma forall_mem_head?_cons {p : Char → Prop} (h : p c) (rest : List Char) :
    ∀ c' ∈ (c :: rest).head?, p c' := by
  intro c' hc'
  rwa [← Option.some.inj hc']

/-- Characters of one kind in front of another are parted from it in one way. -/
lemma append_inj_of_all {p : Char → Bool} (hcs : ∀ c ∈ cs, p c = true)
    (hcs' : ∀ c ∈ cs', p c = true) (hrest : ∀ c ∈ rest.head?, p c = false)
    (hrest' : ∀ c ∈ rest'.head?, p c = false) (h : cs ++ rest = cs' ++ rest') :
    cs = cs' ∧ rest = rest' := by
  have hnone : ∀ {rest : List Char}, (∀ c ∈ rest.head?, p c = false) → rest.takeWhile p = [] := by
    intro rest hrest
    cases rest with
    | nil => rfl
    | cons c rest => exact List.takeWhile_cons_of_neg (by simp [hrest c rfl])
  have htake := congrArg (List.takeWhile p) h
  rw [List.takeWhile_append_of_pos hcs, List.takeWhile_append_of_pos hcs', hnone hrest,
    hnone hrest', List.append_nil, List.append_nil] at htake
  exact ⟨htake, List.append_cancel_left (htake ▸ h)⟩

lemma IsBlank.append_inj (hcs : IsBlank cs) (hcs' : IsBlank cs')
    (hrest : ∀ c ∈ rest.head?, isSpace c = false) (hrest' : ∀ c ∈ rest'.head?, isSpace c = false)
    (h : cs ++ rest = cs' ++ rest') : rest = rest' :=
  (append_inj_of_all (fun c hc => isSpace_iff.mpr (hcs c hc))
    (fun c hc => isSpace_iff.mpr (hcs' c hc)) hrest hrest' h).2

lemma Spells.append_inj {text' written' : List Char} (hwritten : Spells text written)
    (hwritten' : Spells text' written') (h : written ++ '"' :: rest = written' ++ '"' :: rest') :
    text = text' ∧ rest = rest' := by
  have hread : unquote (written ++ '"' :: rest) = some (text, rest) := hwritten.unquote_append
  rw [h, hwritten'.unquote_append] at hread
  obtain ⟨htext, hrest⟩ := Prod.mk.inj (Option.some.inj hread)
  exact ⟨htext.symm, hrest.symm⟩

lemma not_isSpace_not_isNumeral (h : c ∈ [',', ']', '}']) :
    isSpace c = false ∧ isNumeral c = false := by
  simp only [List.mem_cons, List.not_mem_nil, or_false] at h
  rcases h with rfl | rfl | rfl <;> exact ⟨rfl, rfl⟩

lemma Closes.not_isSpace (h : Closes rest) : ∀ c ∈ rest.head?, isSpace c = false :=
  fun c hc => (not_isSpace_not_isNumeral (h c hc)).1

lemma Closes.stops (h : Closes rest) : Stops rest :=
  fun c hc => (not_isSpace_not_isNumeral (h c hc)).2

lemma stops_blank_append (hblank : IsBlank cs) (h : Closes rest) : Stops (cs ++ rest) := by
  cases cs with
  | nil => exact h.stops
  | cons c cs =>
    refine forall_mem_head?_cons ?_ (cs ++ rest)
    have hc := hblank c (.head _)
    simp only [List.mem_cons, List.not_mem_nil, or_false] at hc
    rcases hc with rfl | rfl | rfl | rfl <;> rfl

/-! ### The first character of a value -/

/-- Whether a value may start with a character. -/
def Starts : Value → Char → Prop
  | .null, c => c = 'n'
  | .boolean b, c => c = if b then 't' else 'f'
  | .number _, c => isNumeral c = true
  | .string _, c => c = '"'
  | .array _, c => c = '['
  | .object _, c => c = '{'

lemma Writes.starts (h : Writes (.value v) cs) : ∃ c tail, cs = c :: tail ∧ Starts v c := by
  cases h with
  | number hread =>
    cases cs with
    | nil => cases hread
    | cons c tail => exact ⟨c, tail, rfl, List.all_eq_true.mp (all_isNumeral hread) c (by simp)⟩
  | _ => exact ⟨_, _, rfl, rfl⟩

lemma Writes.starts_append (h : Writes (.value v) cs) : ∀ c ∈ (cs ++ rest).head?, Starts v c := by
  obtain ⟨c, tail, rfl, hstarts⟩ := h.starts
  exact forall_mem_head?_cons hstarts (tail ++ rest)

lemma Starts.not_isSpace (h : Starts v c) : isSpace c = false := by
  cases v with
  | number q =>
    by_contra hspace
    rw [Bool.not_eq_false, isSpace_iff] at hspace
    simp only [List.mem_cons, List.not_mem_nil, or_false] at hspace
    rcases hspace with rfl | rfl | rfl | rfl <;> cases h
  | boolean b =>
    cases b <;> cases h <;> rfl
  | _ => cases h; rfl

lemma Starts.ne_bracket (h : Starts v c) : c ≠ ']' := by
  rintro rfl
  cases v with
  | boolean b => cases b <;> cases h
  | _ => cases h

/-- The first character tells one kind of value from the others. -/
lemma Starts.kind {v v' : Value} (h : Starts v c) (h' : Starts v' c) : v.ctorIdx = v'.ctorIdx := by
  cases v <;> cases v' <;> simp only [Starts] at h h' <;> first
    | rfl
    | (exfalso; subst h; revert h'; decide +revert)
    | (exfalso; subst h'; revert h; decide +revert)

lemma Writes.kind {v v' : Value} (h : Writes (.value v) cs) (h' : Writes (.value v') cs')
    (heq : cs ++ rest = cs' ++ rest') : v.ctorIdx = v'.ctorIdx := by
  obtain ⟨c, tail, rfl, hstarts⟩ := h.starts
  have hhead : c ∈ (cs' ++ rest').head? := by
    rw [← heq]
    rfl
  exact hstarts.kind (h'.starts_append c hhead)

/-! ### Sequences -/

variable {α : Type} {one : α → Phrase} {all : List α → Phrase} {x : α} {xs : List α}
  {close : Char}

/-- Whether what is written for something, in front of what may follow, is written for nothing
else. -/
def Only (follows : List Char → Prop) (phrase : α → Phrase) (x : α) (cs : List Char) : Prop :=
  ∀ ⦃x' cs' rest rest'⦄, Writes (phrase x') cs' → follows rest → follows rest' →
    cs ++ rest = cs' ++ rest' → x = x' ∧ rest = rest'

/-- How a sequence is written: as its last part, or as its first one with a comma and the others
behind it. -/
def Listing (one : α → Phrase) (all : List α → Phrase) (xs : List α) (cs : List Char) : Prop :=
  (∃ x, xs = [x] ∧ Writes (one x) cs) ∨
    ∃ x xs' written tail, xs = x :: xs' ∧ cs = written ++ ',' :: tail ∧ Writes (one x) written ∧
      Writes (all xs') tail

lemma listing_items {vs : List Value} (h : Writes (.items vs) cs) :
    Listing .element .items vs cs := by
  cases h with
  | item hv => exact .inl ⟨_, rfl, hv⟩
  | items hv hvs => exact .inr ⟨_, _, _, _, rfl, rfl, hv, hvs⟩

lemma listing_members {ms : List (String × Value)} (h : Writes (.members ms) cs) :
    Listing .member .members ms cs := by
  cases h with
  | lastMember hm => exact .inl ⟨_, rfl, hm⟩
  | members hm hms => exact .inr ⟨_, _, _, _, rfl, rfl, hm, hms⟩

/-- Whether a bracket comes next. -/
def Ends (close : Char) (rest : List Char) : Prop := rest.head? = some close

lemma Ends.closes (h : Ends close rest) (hclose : close ∈ [',', ']', '}']) : Closes rest := by
  intro c hc
  rwa [← Option.some.inj (h.symm.trans hc)]

lemma closes_comma (rest : List Char) : Closes (',' :: rest) :=
  forall_mem_head?_cons (by decide) rest

lemma Only.last (hone : Only Closes one x cs)
    (hlisting : ∀ {xs cs}, Writes (all xs) cs → Listing one all xs cs)
    (hclose : close ∈ [']', '}']) : Only (Ends close) all [x] cs := by
  intro xs' cs' rest rest' h' hrest hrest' heq
  have hmem : close ∈ [',', ']', '}'] := List.mem_cons_of_mem _ hclose
  rcases hlisting h' with ⟨x', rfl, hx'⟩ | ⟨x', xs'', written, tail, rfl, rfl, hx', -⟩
  · obtain ⟨rfl, rfl⟩ := hone hx' (hrest.closes hmem) (hrest'.closes hmem) heq
    exact ⟨rfl, rfl⟩
  · rw [List.append_assoc] at heq
    obtain ⟨-, rfl⟩ := hone hx' (hrest.closes hmem) (closes_comma _) heq
    obtain rfl : ',' = close := Option.some.inj hrest
    exact absurd hclose (by decide)

lemma Only.more {tail : List Char} (hone : Only Closes one x cs)
    (hall : Only (Ends close) all xs tail)
    (hlisting : ∀ {xs cs}, Writes (all xs) cs → Listing one all xs cs)
    (hclose : close ∈ [']', '}']) : Only (Ends close) all (x :: xs) (cs ++ ',' :: tail) := by
  intro xs' cs' rest rest' h' hrest hrest' heq
  have hmem : close ∈ [',', ']', '}'] := List.mem_cons_of_mem _ hclose
  rw [List.append_assoc] at heq
  rcases hlisting h' with ⟨x', rfl, hx'⟩ | ⟨x', xs'', written, tail', rfl, rfl, hx', hxs'⟩
  · obtain ⟨-, rfl⟩ := hone hx' (closes_comma _) (hrest'.closes hmem) heq
    obtain rfl : ',' = close := Option.some.inj hrest'
    exact absurd hclose (by decide)
  · rw [List.append_assoc] at heq
    obtain ⟨rfl, htail⟩ := hone hx' (closes_comma _) (closes_comma _) heq
    obtain ⟨rfl, rfl⟩ := hall hxs' hrest hrest' (List.cons.inj htail).2
    exact ⟨rfl, rfl⟩

/-! ### Brackets -/

/-- Whether something other than white space or a bracket comes first. -/
def Opens (close : Char) (cs : List Char) : Prop :=
  ∃ blank c tail, IsBlank blank ∧ cs = blank ++ c :: tail ∧ isSpace c = false ∧ c ≠ close

lemma Opens.append (h : Opens close cs) (rest : List Char) : Opens close (cs ++ rest) := by
  obtain ⟨blank, c, tail, hblank, rfl, hc⟩ := h
  exact ⟨blank, c, tail ++ rest, hblank, by simp, hc⟩

lemma Listing.opens (h : Listing one all xs cs)
    (hone : ∀ {x cs}, Writes (one x) cs → Opens close cs) : Opens close cs := by
  rcases h with ⟨x, -, hx⟩ | ⟨x, xs', written, tail, -, rfl, hx, -⟩
  · exact hone hx
  · exact (hone hx).append _

lemma opens_element (h : Writes (.element v) cs) : Opens ']' cs := by
  cases h with
  | @element _ before cs after hbefore hafter hv =>
    obtain ⟨c, tail, rfl, hstarts⟩ := hv.starts
    exact ⟨before, c, tail ++ after, hbefore, rfl, hstarts.not_isSpace, hstarts.ne_bracket⟩

lemma opens_member {m : String × Value} (h : Writes (.member m) cs) : Opens '}' cs := by
  cases h with
  | member hbefore => exact ⟨_, _, _, hbefore, rfl, rfl, by decide⟩

lemma not_isSpace_close (hclose : close ∈ [']', '}']) : isSpace close = false :=
  (not_isSpace_not_isNumeral (List.mem_cons_of_mem _ hclose)).1

/-- What stands between brackets is no white space if there is something in it. -/
lemma Opens.ne_blank (h : Opens close cs) (hclose : close ∈ [']', '}']) (hblank : IsBlank before) :
    before ++ close :: rest ≠ cs ++ rest' := by
  obtain ⟨blank, c, tail, hblank', rfl, hspace, hne⟩ := h
  rw [List.append_assoc]
  intro heq
  have hrest := hblank.append_inj hblank' (forall_mem_head?_cons (not_isSpace_close hclose) _)
    (forall_mem_head?_cons hspace _) heq
  exact hne (List.cons.inj hrest).1.symm

/-- What stands between brackets: white space, or a sequence. -/
def Contents (all : List α → Phrase) (xs : List α) (cs : List Char) : Prop :=
  (xs = [] ∧ IsBlank cs) ∨ Writes (all xs) cs

lemma IsBlank.contents_inj {xs' : List α} (hclose : close ∈ [']', '}'])
    (hopens : ∀ {xs cs}, Writes (all xs) cs → Opens close cs) (hblank : IsBlank cs)
    (h' : Contents all xs' cs') (heq : cs ++ close :: rest = cs' ++ close :: rest') :
    [] = xs' ∧ rest = rest' := by
  rcases h' with ⟨rfl, hblank'⟩ | hxs'
  · have hclosed : ∀ rest : List Char, ∀ c ∈ (close :: rest).head?, isSpace c = false :=
      forall_mem_head?_cons (not_isSpace_close hclose)
    exact ⟨rfl, (List.cons.inj (hblank.append_inj hblank' (hclosed _) (hclosed _) heq)).2⟩
  · exact absurd heq ((hopens hxs').ne_blank hclose hblank)

lemma Only.contents_inj {xs' : List α} (hclose : close ∈ [']', '}'])
    (hopens : ∀ {xs cs}, Writes (all xs) cs → Opens close cs) (hxs : Writes (all xs) cs)
    (hall : Only (Ends close) all xs cs) (h' : Contents all xs' cs')
    (heq : cs ++ close :: rest = cs' ++ close :: rest') : xs = xs' ∧ rest = rest' := by
  rcases h' with ⟨rfl, hblank'⟩ | hxs'
  · exact absurd heq.symm ((hopens hxs).ne_blank hclose hblank')
  · have hends : ∀ {rest : List Char}, Ends close (close :: rest) := rfl
    obtain ⟨rfl, hrest⟩ := hall hxs' hends hends heq
    exact ⟨rfl, (List.cons.inj hrest).2⟩

lemma opens_items {vs : List Value} (h : Writes (.items vs) cs) : Opens ']' cs :=
  (listing_items h).opens opens_element

lemma opens_members {ms : List (String × Value)} (h : Writes (.members ms) cs) : Opens '}' cs :=
  (listing_members h).opens opens_member

lemma contents_of_array {vs : List Value} (h : Writes (.value v) cs)
    (hkind : (Value.array vs).ctorIdx = v.ctorIdx) :
    ∃ vs' inner, v = .array vs' ∧ cs = '[' :: (inner ++ [']']) ∧ Contents .items vs' inner := by
  cases h with
  | noItems hblank => exact ⟨_, _, rfl, rfl, .inl ⟨rfl, hblank⟩⟩
  | array hvs => exact ⟨_, _, rfl, rfl, .inr hvs⟩
  | _ => cases hkind

lemma contents_of_object {ms : List (String × Value)} (h : Writes (.value v) cs)
    (hkind : (Value.object ms).ctorIdx = v.ctorIdx) :
    ∃ ms' inner, v = .object ms' ∧ cs = '{' :: (inner ++ ['}']) ∧ Contents .members ms' inner := by
  cases h with
  | noMembers hblank => exact ⟨_, _, rfl, rfl, .inl ⟨rfl, hblank⟩⟩
  | object hms => exact ⟨_, _, rfl, rfl, .inr hms⟩
  | _ => cases hkind

lemma only_bracketed {bracketed : List α → Value} {opening : Char}
    (h : Writes (.value (bracketed xs)) (opening :: (cs ++ [close])))
    (hcontents : ∀ {v cs}, Writes (.value v) cs → (bracketed xs).ctorIdx = v.ctorIdx →
      ∃ xs' inner, v = bracketed xs' ∧ cs = opening :: (inner ++ [close]) ∧ Contents all xs' inner)
    (hinj : ∀ {xs' cs' rest rest'}, Contents all xs' cs' →
      cs ++ close :: rest = cs' ++ close :: rest' → xs = xs' ∧ rest = rest') :
    Only Stops .value (bracketed xs) (opening :: (cs ++ [close])) := by
  intro v' cs' rest rest' h' _ _ heq
  obtain ⟨xs', inner, rfl, rfl, hxs'⟩ := hcontents h' (h.kind h' heq)
  simp only [List.cons_append, List.append_assoc, List.nil_append, List.cons.injEq,
    true_and] at heq
  obtain ⟨rfl, rfl⟩ := hinj hxs' heq
  exact ⟨rfl, rfl⟩

/-! ### One reading -/

/-- Whether what is written for a phrase, in front of what may follow it, is written for nothing
else. -/
def Phrase.IsOnly : Phrase → List Char → Prop
  | .value v, cs => Only Stops .value v cs
  | .element v, cs => Only Closes .element v cs
  | .items vs, cs => Only (Ends ']') .items vs cs
  | .member m, cs => Only Closes .member m cs
  | .members ms, cs => Only (Ends '}') .members ms cs

lemma only_number {q : ℚ} (hread : number? cs = some q) : Only Stops .value (.number q) cs := by
  intro v' cs' rest rest' h' hrest hrest' heq
  have hkind := (Writes.number hread).kind h' heq
  cases h' with
  | number hread' =>
    obtain ⟨rfl, rfl⟩ := append_inj_of_all (List.all_eq_true.mp (all_isNumeral hread))
      (List.all_eq_true.mp (all_isNumeral hread')) hrest hrest' heq
    rw [hread] at hread'
    exact ⟨congrArg Value.number (Option.some.inj hread'), rfl⟩
  | _ => cases hkind

lemma only_string {text : String} (hspells : Spells text.toList cs) :
    Only Stops .value (.string text) ('"' :: (cs ++ ['"'])) := by
  intro v' cs' rest rest' h' hrest hrest' heq
  have hkind := (Writes.string hspells).kind h' heq
  cases h' with
  | string hspells' =>
    simp only [List.cons_append, List.append_assoc, List.nil_append, List.cons.injEq,
      true_and] at heq
    obtain ⟨htext, rfl⟩ := hspells.append_inj hspells' heq
    exact ⟨congrArg Value.string (String.toList_inj.mp htext), rfl⟩
  | _ => cases hkind

lemma only_element {cs : List Char} (hbefore : IsBlank before) (hafter : IsBlank after)
    (hv : Writes (.value v) cs) (hvalue : Only Stops .value v cs) :
    Only Closes .element v (before ++ (cs ++ after)) := by
  intro v' cs' rest rest' h' hrest hrest' heq
  cases h' with
  | @element _ before' cs' after' hbefore' hafter' hv' =>
    simp only [List.append_assoc] at heq
    have hinner := hbefore.append_inj hbefore' (fun c hc => (hv.starts_append c hc).not_isSpace)
      (fun c hc => (hv'.starts_append c hc).not_isSpace) heq
    obtain ⟨rfl, houter⟩ := hvalue hv' (stops_blank_append hafter hrest)
      (stops_blank_append hafter' hrest') hinner
    exact ⟨rfl, hafter.append_inj hafter' hrest.not_isSpace hrest'.not_isSpace houter⟩

lemma only_member {key : String} {between : List Char} (hbefore : IsBlank before)
    (hbetween : IsBlank between) (hkey : Spells key.toList written)
    (hvalue : Only Closes .element v cs) :
    Only Closes .member (key, v) (before ++ '"' :: (written ++ '"' :: (between ++ ':' :: cs))) := by
  intro m' cs' rest rest' h' hrest hrest' heq
  have hquote : ∀ rest : List Char, ∀ c ∈ ('"' :: rest).head?, isSpace c = false :=
    forall_mem_head?_cons rfl
  have hcolon : ∀ rest : List Char, ∀ c ∈ (':' :: rest).head?, isSpace c = false :=
    forall_mem_head?_cons rfl
  cases h' with
  | @member key' v' before' written' between' cs' hbefore' hbetween' hkey' hv' =>
    simp only [List.append_assoc, List.cons_append] at heq
    have hstart := hbefore.append_inj hbefore' (hquote _) (hquote _) heq
    obtain ⟨hsame, hmiddle⟩ := hkey.append_inj hkey' (List.cons.inj hstart).2
    have hend := hbetween.append_inj hbetween' (hcolon _) (hcolon _) hmiddle
    obtain ⟨rfl, rfl⟩ := hvalue hv' hrest hrest' (List.cons.inj hend).2
    exact ⟨Prod.ext (String.toList_inj.mp hsame) rfl, rfl⟩

/-- By induction on what is written. The first character tells the kind of a value, and what may
follow tells where it ends; a value in brackets is told by what stands between them. -/
lemma isOnly_of_writes {p : Phrase} (h : Writes p cs) : p.IsOnly cs := by
  induction h with
  | null =>
    intro v' cs' rest rest' h' _ _ heq
    have hkind := Writes.null.kind h' heq
    cases h' with
    | null => exact ⟨rfl, List.append_cancel_left heq⟩
    | _ => cases hkind
  | true =>
    intro v' cs' rest rest' h' _ _ heq
    have hkind := Writes.true.kind h' heq
    cases h' with
    | true => exact ⟨rfl, List.append_cancel_left heq⟩
    | false => cases heq
    | _ => cases hkind
  | false =>
    intro v' cs' rest rest' h' _ _ heq
    have hkind := Writes.false.kind h' heq
    cases h' with
    | true => cases heq
    | false => exact ⟨rfl, List.append_cancel_left heq⟩
    | _ => cases hkind
  | number hread => exact only_number hread
  | string hspells => exact only_string hspells
  | noItems hblank =>
    exact only_bracketed (.noItems hblank) contents_of_array
      (hblank.contents_inj (by decide) opens_items)
  | array hvs ih =>
    exact only_bracketed (.array hvs) contents_of_array
      (Only.contents_inj (by decide) opens_items hvs ih)
  | noMembers hblank =>
    exact only_bracketed (.noMembers hblank) contents_of_object
      (hblank.contents_inj (by decide) opens_members)
  | object hms ih =>
    exact only_bracketed (.object hms) contents_of_object
      (Only.contents_inj (by decide) opens_members hms ih)
  | element hbefore hafter hv ih => exact only_element hbefore hafter hv ih
  | item hv ih => exact Only.last ih listing_items (by decide)
  | items hv hvs ihv ihvs => exact Only.more ihv ihvs listing_items (by decide)
  | member hbefore hbetween hkey hv ih => exact only_member hbefore hbetween hkey ih
  | lastMember hm ih => exact Only.last ih listing_members (by decide)
  | members hm hms ihm ihms => exact Only.more ihm ihms listing_members (by decide)

/-- **A text is a document of one value at most.** -/
theorem IsDocument.unique {document : String} {v' : Value} (h : IsDocument document v)
    (h' : IsDocument document v') : v = v' := by
  have hend : Closes [] := fun c hc => by cases hc
  exact (isOnly_of_writes h h' hend hend rfl).1

/-- The reader of texts accepts just the documents of texts. -/
theorem string?_eq_some_iff_isDocument {document text : String} :
    string? document = some text ↔ IsDocument document (.string text) := by
  rw [string?_eq_some_iff, IsDocument]
  constructor
  · rintro ⟨before, written, after, hbefore, hafter, hspells, hdocument⟩
    rw [hdocument]
    have hwrites := Writes.element hbefore hafter (.string hspells)
    simpa using hwrites
  · intro h
    generalize hdocument : document.toList = cs at h
    cases h with
    | @element _ before _ after hbefore hafter hv =>
      cases hv with
      | @string _ written hspells =>
        exact ⟨before, written, after, hbefore, hafter, hspells, by simp⟩

/-! ### Printed texts -/

lemma toList_quoted (text : String) :
    (quoted text).toList = '"' :: (text.toList.flatMap escape ++ ['"']) := String.toList_ofList

lemma writes_quoted (text : String) : Writes (.value (.string text)) (quoted text).toList := by
  rw [toList_quoted]
  exact .string (spells_escape text.toList)

lemma isDocument_quoted {before after : String} (hbefore : IsBlank before.toList)
    (hafter : IsBlank after.toList) (text : String) :
    IsDocument (before ++ quoted text ++ after) (.string text) := by
  have hwrites := Writes.element hbefore hafter (writes_quoted text)
  simpa [IsDocument] using hwrites

end TagVersion.Json
