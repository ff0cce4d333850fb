import Hosting.Proofs.Json.Skipping

/-! # What the readers make of a text

    A reader takes a text off whole or fails. What it makes of the text depends on neither the
    blanks in front nor what follows, so each reader is a function of wordings, and a reader
    that is put together from others is put together from their functions.

    - `Means`: the reader comes to a function of the wording.
    - `Wording.first`, `means_of_kind`: the first character tells the kind, so a reader for one
      kind need only be looked at where the text is of that kind.
    - `means_text` to `means_pair`: one lemma for each reader.
    - `meaning`, `Regular`: the function, where there is one, is what the reader makes of the
      text by itself.
-/

namespace Hosting.Json

variable {α β : Type} {item : Reader α} {g : Wording → Option α} {gap rest : List Char}

theorem toOption_eq_some_iff {ε : Type} {x : Except ε α} {v : α} :
    x.toOption = some v ↔ x = .ok v := by
  cases x <;> simp [Except.toOption]

theorem toOption_eq_none_iff {ε : Type} {x : Except ε α} :
    x.toOption = none ↔ ∃ e, x = .error e := by
  cases x <;> simp [Except.toOption]

/-- A reader that comes to what is known of a text fails, or takes the text off. -/
theorem fails_or_reads {ε : Type} {x : Except ε (α × β)} {v? : Option α} {r : β}
    (h : x.toOption = v?.map (·, r)) :
    (∃ fault, x = .error fault ∧ v? = none) ∨ ∃ v, x = .ok (v, r) ∧ v? = some v := by
  cases v? with
  | none =>
    obtain ⟨fault, hfault⟩ := toOption_eq_none_iff.1 h
    exact .inl ⟨fault, hfault, rfl⟩
  | some v => exact .inr ⟨v, toOption_eq_some_iff.1 h, rfl⟩

/-- Wherever the text stands, the reader takes it off as what `g` makes of it. -/
def Means (item : Reader α) (g : Wording → Option α) : Prop :=
  ∀ (w : Wording) {gap rest : List Char}, IsGap gap → Ends rest →
    (item (gap ++ (w.text ++ rest))).toOption = (g w).map (·, rest)

theorem Means.map (h : Means item g) (f : α → β) :
    Means (readMap f item) fun w => (g w).map f := by
  intro w gap rest hgap hrest
  unfold readMap
  rw [toOption_map, h w hgap hrest]
  cases hw : g w <;> simp [hw]

/-- Without blanks before it. -/
theorem Means.here (h : Means item g) (w : Wording) (hrest : Ends rest) :
    (item (w.text ++ rest)).toOption = (g w).map (·, rest) :=
  h w isGap_nil hrest

/-- What the reader makes of a text by itself. -/
def meaning (item : Reader α) (w : Wording) : Option α :=
  (item w.text).toOption.map (·.1)

/-- The reader makes the same of a text wherever it stands. -/
def Regular (item : Reader α) : Prop :=
  Means item (meaning item)

theorem Means.meaning_eq (h : Means item g) : meaning item = g := by
  funext w
  have hread := h.here w ends_nil
  rw [List.append_nil] at hread
  unfold meaning
  rw [hread]
  cases g w <;> rfl

theorem Means.regular (h : Means item g) : Regular item := by
  unfold Regular
  rw [h.meaning_eq]
  exact h

theorem Regular.map (h : Regular item) (f : α → β) : Regular (readMap f item) :=
  (Means.map h f).regular

theorem meaning_map (f : α → β) (w : Wording) :
    meaning (readMap f item) w = (meaning item w).map f := by
  unfold meaning readMap
  cases item w.text <;> rfl

/-! ### Kinds -/

/-- The kinds of texts. -/
inductive Kind where
  | null | bool | number | text | array | object
deriving DecidableEq

def Wording.kind : Wording → Kind
  | .null => .null
  | .bool _ => .bool
  | .number _ => .number
  | .quoted _ => .text
  | .array _ _ => .array
  | .object _ _ => .object

/-- The kind that the first character of a text gives away. -/
def Kind.ofFirst (c : Char) : Kind :=
  if c = 'n' then .null
  else if c = 't' ∨ c = 'f' then .bool
  else if c = '"' then .text
  else if c = '[' then .array
  else if c = '\x7b' then .object
  else .number

theorem Kind.ofFirst_number {c : Char} (hc : c = '-' ∨ c.isDigit = true) :
    ofFirst c = .number := by
  have hne (d : Char) (hd : ¬ (d = '-' ∨ d.isDigit = true)) : c ≠ d := by
    rintro rfl
    exact hd hc
  unfold ofFirst
  rw [if_neg (hne 'n' (by decide)), if_neg (by simp [hne 't' (by decide), hne 'f' (by decide)]),
    if_neg (hne '"' (by decide)), if_neg (hne '[' (by decide)), if_neg (hne '\x7b' (by decide))]

/-- The first character of a wording is no blank, and tells its kind. -/
theorem Wording.first (w : Wording) :
    ∃ c tail, w.text = c :: tail ∧ isGap c = false ∧ Kind.ofFirst c = w.kind := by
  cases w with
  | null => exact ⟨'n', _, rfl, rfl, rfl⟩
  | bool b =>
    cases b with
    | true => exact ⟨'t', _, rfl, rfl, rfl⟩
    | false => exact ⟨'f', _, rfl, rfl, rfl⟩
  | number n =>
    obtain ⟨c, tail, htext, hc⟩ := n.exists_cons
    exact ⟨c, tail, htext, isGap_digit_or_sign hc, Kind.ofFirst_number hc⟩
  | quoted ps => exact ⟨'"', _, rfl, rfl, rfl⟩
  | array es inside => exact ⟨'[', _, rfl, rfl, rfl⟩
  | object ms inside => exact ⟨'\x7b', _, rfl, rfl, rfl⟩

/-- The reader takes no text that starts otherwise than those of a kind. -/
def OnlyTakes (item : Reader α) (k : Kind) : Prop :=
  ∀ cs c tail, afterGap cs = c :: tail → Kind.ofFirst c ≠ k → (item cs).toOption = none

theorem OnlyTakes.fails {k : Kind} (h : OnlyTakes item k) {w : Wording} (hw : w.kind ≠ k)
    (hgap : IsGap gap) (rest : List Char) : (item (gap ++ (w.text ++ rest))).toOption = none := by
  obtain ⟨c, tail, htext, hc, hkind⟩ := w.first
  refine h _ c (tail ++ rest) ?_ (hkind ▸ hw)
  rw [afterGap_append hgap, htext, List.cons_append, afterGap_cons hc]

/-- A reader for one kind has to be looked at where the text is of that kind. -/
theorem means_of_kind (k : Kind) (honly : OnlyTakes item k) (hg : ∀ w, w.kind ≠ k → g w = none)
    (hown : ∀ w : Wording, w.kind = k → ∀ {gap rest : List Char}, IsGap gap → Ends rest →
      (item (gap ++ (w.text ++ rest))).toOption = (g w).map (·, rest)) :
    Means item g := by
  intro w gap rest hgap hrest
  by_cases hw : w.kind = k
  · exact hown w hw hgap hrest
  · rw [honly.fails hw hgap, hg w hw]
    rfl

/-! ### Values without parts -/

def textOf : Wording → Option String
  | .quoted ps => Piece.string? ps
  | _ => none

def boolOf : Wording → Option Bool
  | .bool b => some b
  | _ => none

def nullOf : Wording → Option Unit
  | .null => some ()
  | _ => none

def countOf : Wording → Option UInt32
  | .number n => n.count?.bind fun k => if k < 4294967296 then some (.ofNat k) else none
  | _ => none

theorem means_text : Means readText textOf := by
  refine means_of_kind .text ?_ ?_ ?_
  · intro cs c tail hcs hc
    unfold readText
    rw [hcs]
    split
    · next heq =>
      obtain ⟨rfl, -⟩ := List.cons.inj heq
      exact absurd rfl hc
    · rfl
  · intro w hw
    cases w <;> first | rfl | exact absurd rfl hw
  · intro w hw gap rest hgap hrest
    cases w with
    | quoted ps =>
      unfold readText
      rw [afterGap_append hgap, Wording.text, quotedText_append, afterGap_cons rfl]
      exact string_pieces ps rest
    | _ => cases hw

theorem means_bool : Means readBool boolOf := by
  refine means_of_kind .bool ?_ ?_ ?_
  · intro cs c tail hcs hc
    unfold readBool
    rw [hcs]
    split
    · next heq =>
      obtain ⟨rfl, -⟩ := List.cons.inj heq
      exact absurd rfl hc
    · next heq =>
      obtain ⟨rfl, -⟩ := List.cons.inj heq
      exact absurd rfl hc
    · rfl
  · intro w hw
    cases w <;> first | rfl | exact absurd rfl hw
  · intro w hw gap rest hgap hrest
    cases w with
    | bool b =>
      unfold readBool
      rw [afterGap_append hgap]
      cases b with
      | false =>
        show ((word _ (['a', 'l', 's', 'e'] ++ rest)).map _).toOption = _
        rw [word_append]
        rfl
      | true =>
        show ((word _ (['r', 'u', 'e'] ++ rest)).map _).toOption = _
        rw [word_append]
        rfl
    | _ => cases hw

theorem means_null : Means readNull nullOf := by
  refine means_of_kind .null ?_ ?_ ?_
  · intro cs c tail hcs hc
    unfold readNull
    rw [hcs]
    split
    · next heq =>
      obtain ⟨rfl, -⟩ := List.cons.inj heq
      exact absurd rfl hc
    · rfl
  · intro w hw
    cases w <;> first | rfl | exact absurd rfl hw
  · intro w hw gap rest hgap hrest
    cases w with
    | null =>
      unfold readNull
      rw [afterGap_append hgap]
      show ((word _ (['u', 'l', 'l'] ++ rest)).map _).toOption = _
      rw [word_append]
      rfl
    | _ => cases hw

/-- A number is a count for the reader if it is one and lies in its range. -/
theorem readCount_numeral {c : Char} {tail : List Char} (hafter : afterGap gap = c :: tail)
    (hc : c = '-' ∨ c.isDigit = true) :
    (readCount gap).toOption =
      match numeral (c :: tail) with
      | .ok (.count n, rest) => if n < 4294967296 then some (.ofNat n, rest) else none
      | _ => none := by
  unfold readCount
  rw [hafter]
  simp only [decide_eq_true_eq, Bool.or_eq_true, hc, if_true]
  split
  · next heq => rw [heq]; rfl
  · next heq =>
    rw [heq]
    simp only
    split <;> rfl
  · next heq => rw [heq]; rfl

theorem readCount_number (n : Number) (hgap : IsGap gap) (hrest : Ends rest) :
    (readCount (gap ++ (n.text ++ rest))).toOption =
      (countOf (.number n)).map (·, rest) := by
  obtain ⟨c, tail, htext, hc⟩ := n.exists_cons
  have hafter : afterGap (gap ++ (n.text ++ rest)) = c :: (tail ++ rest) := by
    rw [afterGap_append hgap, htext, List.cons_append, afterGap_cons (isGap_digit_or_sign hc)]
  have hread := numeral_spec n hrest
  rw [htext, List.cons_append] at hread
  rw [readCount_numeral hafter hc, countOf]
  have hother (h : IsOther (numeral (c :: (tail ++ rest))) rest) :
      (match numeral (c :: (tail ++ rest)) with
        | .ok (.count n, rest) => if n < 4294967296 then some (UInt32.ofNat n, rest) else none
        | _ => none) = none := by
    rcases h with ⟨fault, h⟩ | h <;> rw [h]
  cases hcount : n.count? with
  | none =>
    rw [hcount] at hread
    exact hother hread
  | some k =>
    rw [hcount] at hread
    simp only at hread
    simp only [Option.bind_some]
    split at hread
    · rw [hread]
      simp only
      split <;> rfl
    · next hbig =>
      -- beyond 64 bits the numeral is not even a count, so it is none in the range
      have hrange : ¬ k < 4294967296 := by
        unfold maxCount at hbig
        omega
      rw [hother hread, if_neg hrange]
      rfl

theorem means_count : Means readCount countOf := by
  refine means_of_kind .number ?_ ?_ ?_
  · intro cs c tail hcs hc
    have hnot : ¬ (c = '-' || c.isDigit) = true := by
      intro h
      exact hc (Kind.ofFirst_number (by simpa using h))
    unfold readCount
    rw [hcs]
    simp only
    rw [if_neg hnot]
    rfl
  · intro w hw
    cases w <;> first | rfl | exact absurd rfl hw
  · intro w hw gap rest hgap hrest
    cases w with
    | number n => exact readCount_number n hgap hrest
    | _ => cases hw

/-! ### Options and checked texts -/

def optionOf (g : Wording → Option α) : Wording → Option (Option α)
  | .null => some none
  | w => (g w).map some

theorem optionOf_of_kind {w : Wording} (h : w.kind ≠ .null) : optionOf g w = (g w).map some := by
  cases w <;> first | rfl | exact absurd rfl h

theorem means_option (h : Means item g) : Means (readOption item) (optionOf g) := by
  intro w gap rest hgap hrest
  by_cases hnull : w.kind = .null
  · cases w with
    | null =>
      unfold readOption
      rw [afterGap_append hgap]
      show ((word _ (['u', 'l', 'l'] ++ rest)).map _).toOption = _
      rw [word_append]
      rfl
    | _ => cases hnull
  · -- no other kind starts like `null`, so the text goes on to the reader of the item
    have hread := h.here w hrest
    obtain ⟨c, tail, htext, hc, hkind⟩ := w.first
    unfold readOption
    rw [afterGap_append hgap, htext, List.cons_append, afterGap_cons hc]
    rw [htext, List.cons_append] at hread
    split
    · next heq =>
      obtain ⟨rfl, -⟩ := List.cons.inj heq
      exact absurd hkind.symm hnull
    · rw [toOption_map, hread, optionOf_of_kind hnull]
      cases g w <;> rfl

def parsedOf (f : String → Option α) (w : Wording) : Option α :=
  (textOf w).bind f

theorem means_parsed (f : String → Option α) : Means (readParsed f) (parsedOf f) := by
  intro w gap rest hgap hrest
  have hread := means_text w hgap hrest
  unfold readParsed parsedOf
  rcases fails_or_reads hread with ⟨fault, hfault, hnone⟩ | ⟨s, hok, hsome⟩
  · rw [hfault, hnone]
    rfl
  · rw [hok, hsome]
    simp only [Option.bind_some]
    cases f s <;> rfl

/-! ### Lists -/

/-- What the elements of an array are taken for. -/
def elementsOf (g : Wording → Option α) (es : List (Element Wording)) : Option (List α) :=
  es.mapM fun e => g e.value

theorem elementsOf_cons (e : Element Wording) (es : List (Element Wording)) :
    elementsOf g (e :: es) = (g e.value).bind fun x => (elementsOf g es).map (x :: ·) := by
  unfold elementsOf
  rw [List.mapM_cons]
  cases g e.value with
  | none => rfl
  | some x => cases es.mapM fun e => g e.value <;> rfl

def listOf (g : Wording → Option α) : Wording → Option (List α)
  | .array es _ => elementsOf g es
  | _ => none

theorem elementSteps_succ {first : Bool} {cs r : List Char}
    (hnext : nextElement first cs = .ok (some r)) (n : Nat) :
    elementSteps item (n + 1) first cs =
      (item r).bind fun x =>
        (elementSteps item n false x.2).map fun xs => (x.1 :: xs.1, xs.2) := by
  rw [elementSteps, hnext]
  simp only
  cases item r with
  | error fault => rfl
  | ok x =>
    simp only [Except.bind]
    cases elementSteps item n false x.2 <;> rfl

/-- One element and those behind it. -/
theorem elementSteps_cons (h : Means item g) {first : Bool} {e : Element Wording}
    {es : List (Element Wording)} {n : Nat} {cs rest tail : List Char}
    (hnext : nextElement first cs = .ok (some (e.value.text ++ rest))) (hrest : Ends rest)
    (htail : (elementSteps item n false rest).toOption = (elementsOf g es).map (·, tail)) :
    (elementSteps item (n + 1) first cs).toOption = (elementsOf g (e :: es)).map (·, tail) := by
  rw [elementSteps_succ hnext, toOption_bind, h.here e.value hrest, elementsOf_cons]
  cases g e.value with
  | none => rfl
  | some x =>
    simp only [Option.map_some, Option.bind_some, toOption_map, htail, Option.map_map]
    rfl

/-- The elements after the first, up to the closing bracket. -/
theorem elementSteps_text (h : Means item g) (es : List (Element Wording)) (inside : Gap)
    {n : Nat} (hn : es.length < n) {gap : List Char} (hgap : IsGap gap) (rest : List Char) :
    ∃ gap', IsGap gap' ∧ (elementSteps item n false (gap ++ (Wording.moreElements es ++
        (inside.val ++ ']' :: rest)))).toOption =
      (elementsOf g es).map (·, gap' ++ ']' :: rest) := by
  -- every element takes one step, and the closing bracket the last
  induction es generalizing n gap with
  | nil =>
    obtain ⟨k, rfl⟩ : ∃ k, n = k + 1 := ⟨n - 1, by simp at hn; omega⟩
    refine ⟨gap ++ inside.val, hgap.append inside.property, ?_⟩
    rw [Wording.moreElements, List.nil_append, elementSteps, nextElement_gap hgap,
      nextElement_close inside.property, List.append_assoc]
    rfl
  | cons e es ih =>
    obtain ⟨k, rfl⟩ : ∃ k, n = k + 1 := ⟨n - 1, by simp at hn; omega⟩
    obtain ⟨before, v, after⟩ := e
    obtain ⟨gap', hgap', htail⟩ := ih (n := k) (by simpa using hn) after.property
    have hends := (ends_moreElements es inside rest).gap_append after.property
    refine ⟨gap', hgap', ?_⟩
    simp only [Wording.moreElements, List.cons_append, List.append_assoc]
    refine elementSteps_cons h ?_ hends htail
    rw [nextElement_gap hgap, nextElement_comma before.property v.startsValue]

/-- All elements, up to the closing bracket. -/
theorem elements_text (h : Means item g) (es : List (Element Wording)) (inside : Gap) {n : Nat}
    (hn : es.length < n) (rest : List Char) :
    ∃ gap, IsGap gap ∧
      (elementSteps item n true (Wording.elementsText es ++ (inside.val ++ ']' :: rest))).toOption =
        (elementsOf g es).map (·, gap ++ ']' :: rest) := by
  obtain ⟨k, rfl⟩ : ∃ k, n = k + 1 := ⟨n - 1, by omega⟩
  cases es with
  | nil =>
    refine ⟨inside.val, inside.property, ?_⟩
    rw [Wording.elementsText, List.nil_append, elementSteps, nextElement_close inside.property]
    rfl
  | cons e es =>
    obtain ⟨before, v, after⟩ := e
    obtain ⟨gap, hgap, htail⟩ :=
      elementSteps_text h es inside (n := k) (by simpa using hn) after.property rest
    refine ⟨gap, hgap, ?_⟩
    simp only [Wording.elementsText, List.append_assoc]
    exact elementSteps_cons h (nextElement_first before.property v.startsValue _)
      ((ends_moreElements es inside rest).gap_append after.property) htail

theorem length_le_moreElements (es : List (Element Wording)) :
    es.length ≤ (Wording.moreElements es).length := by
  induction es with
  | nil => simp
  | cons e es ih =>
    simp only [Wording.moreElements, List.length_cons, List.length_append]
    omega

theorem length_le_elementsText (es : List (Element Wording)) :
    es.length ≤ (Wording.elementsText es).length := by
  cases es with
  | nil => simp
  | cons e es =>
    obtain ⟨before, v, after⟩ := e
    obtain ⟨c, tail, htext, -⟩ := v.startsValue
    have hmore := length_le_moreElements es
    simp only [Wording.elementsText, htext, List.length_cons, List.length_append]
    omega

theorem means_list (h : Means item g) : Means (readList item) (listOf g) := by
  refine means_of_kind .array ?_ ?_ ?_
  · intro cs c tail hcs hc
    unfold readList
    rw [hcs]
    split
    · next heq =>
      obtain ⟨rfl, -⟩ := List.cons.inj heq
      exact absurd rfl hc
    · rfl
  · intro w hw
    cases w <;> first | rfl | exact absurd rfl hw
  · intro w hw gap rest hgap hrest
    cases w with
    | array es inside =>
      unfold readList
      have hlength := length_le_elementsText es
      obtain ⟨gap', hgap', hsteps⟩ := elements_text h es inside
        (n := (Wording.elementsText es ++ (inside.val ++ ']' :: rest)).length + 1)
        (by simp only [List.length_append]; omega) rest
      rw [afterGap_append hgap, Wording.text_array_append, afterGap_cons rfl, listOf]
      simp only
      rcases fails_or_reads hsteps with ⟨fault, hfault, hnone⟩ | ⟨xs, hok, hsome⟩
      · rw [hfault, hnone]
        rfl
      · rw [hok, hsome]
        simp only
        rw [closeArray_close hgap']
        rfl
    | _ => cases hw

/-! ### Pairs -/

def pairOf (g : Wording → Option α) (g' : Wording → Option β) : Wording → Option (α × β)
  | .array [e, e'] _ => (g e.value).bind fun a => (g' e'.value).map (a, ·)
  | _ => none

/-- An element that has to be there. -/
theorem readElement_text (h : Means item g) {first : Bool} {cs : List Char} {v : Wording}
    (hnext : nextElement first cs = .ok (some (v.text ++ rest))) (hrest : Ends rest) :
    (readElement item first cs).toOption = (g v).map (·, rest) := by
  unfold readElement
  rw [hnext]
  exact h.here v hrest

theorem readElement_none {first : Bool} {cs : List Char} (hnext : nextElement first cs = .ok none) :
    (readElement item first cs).toOption = none := by
  unfold readElement
  rw [hnext]
  rfl

/-- What an array is taken for that has a first element: a pair, if there is one more behind it. -/
theorem pairOf_cons {g' : Wording → Option β} (e : Element Wording) (es : List (Element Wording))
    (inside : Gap) :
    pairOf g g' (.array (e :: es) inside) =
      (g e.value).bind fun a =>
        match es with
        | [e'] => (g' e'.value).map (a, ·)
        | _ => none := by
  match es with
  | [] => cases hvalue : g e.value <;> simp [pairOf]
  | [e'] => rfl
  | _ :: _ :: _ => cases hvalue : g e.value <;> simp [pairOf]

/-- A pair is read as one element after the other. -/
theorem readPair_open (left : Reader α) (right : Reader β) (hgap : IsGap gap) (cs : List Char) :
    readPair left right (gap ++ '[' :: cs) =
      (readElement left true cs).bind fun a =>
        (readElement right false a.2).bind fun b => (closeArray b.2).map ((a.1, b.1), ·) := by
  unfold readPair
  rw [afterGap_append hgap, afterGap_cons rfl]
  simp only
  cases readElement left true cs with
  | error fault => rfl
  | ok a =>
    simp only [Except.bind]
    cases readElement right false a.2 <;> rfl

/-- Behind the first element there is one more, and then the closing bracket. -/
theorem secondElement_text {right : Reader β} {g' : Wording → Option β} (h' : Means right g') (a : α)
    (es : List (Element Wording)) (inside : Gap) (hgap : IsGap gap) (rest : List Char) :
    ((readElement right false (gap ++ (Wording.moreElements es ++ (inside.val ++ ']' :: rest)))).bind
        fun b => (closeArray b.2).map ((a, b.1), ·)).toOption =
      (match es with
        | [e] => (g' e.value).map (a, ·)
        | _ => none).map (·, rest) := by
  rw [toOption_bind]
  -- the bracket may come too soon, in time, or be missing behind a second comma
  cases es with
  | nil =>
    have hnone : (readElement right false ((gap ++ inside.val) ++ ']' :: rest)).toOption = none :=
      readElement_none (nextElement_close (hgap.append inside.property) false rest)
    rw [Wording.moreElements, List.nil_append, ← List.append_assoc, hnone]
    rfl
  | cons e es =>
    obtain ⟨before, w, after⟩ := e
    have hends := (ends_moreElements es inside rest).gap_append after.property
    have hnext := nextElement_comma before.property w.startsValue
      (after.val ++ (Wording.moreElements es ++ (inside.val ++ ']' :: rest)))
    rw [← nextElement_gap hgap] at hnext
    simp only [Wording.moreElements, List.cons_append, List.append_assoc]
    rw [readElement_text h' hnext hends]
    cases es with
    | nil =>
      rw [Wording.moreElements, List.nil_append]
      show _ = ((g' w).map (a, ·)).map (·, rest)
      cases g' w with
      | none => rfl
      | some b =>
        have hclose := closeArray_close (after.property.append inside.property) rest
        rw [List.append_assoc] at hclose
        simp only [Option.map_some, Option.bind_some, hclose]
        rfl
    | cons e es =>
      cases g' w with
      | none => rfl
      | some b =>
        simp only [Option.map_some, Option.bind_some, Wording.moreElements, List.cons_append,
          closeArray_comma after.property]
        rfl

/-- An array is a pair if it has two elements. -/
theorem readPair_array {right : Reader β} {g' : Wording → Option β} (h : Means item g)
    (h' : Means right g') (es : List (Element Wording)) (inside : Gap) (hgap : IsGap gap)
    (rest : List Char) :
    (readPair item right (gap ++ ((Wording.array es inside).text ++ rest))).toOption =
      (pairOf g g' (.array es inside)).map (·, rest) := by
  rw [Wording.text_array_append, readPair_open item right hgap, toOption_bind]
  cases es with
  | nil =>
    rw [Wording.elementsText, List.nil_append,
      readElement_none (nextElement_close inside.property true rest)]
    rfl
  | cons e es =>
    obtain ⟨before, v, after⟩ := e
    have hends := (ends_moreElements es inside rest).gap_append after.property
    simp only [Wording.elementsText, List.append_assoc]
    rw [readElement_text h (nextElement_first before.property v.startsValue _) hends, pairOf_cons]
    cases g v with
    | none => rfl
    | some a => exact secondElement_text h' a es inside after.property rest

theorem means_pair {right : Reader β} {g' : Wording → Option β} (h : Means item g)
    (h' : Means right g') : Means (readPair item right) (pairOf g g') := by
  refine means_of_kind .array ?_ ?_ ?_
  · intro cs c tail hcs hc
    unfold readPair
    rw [hcs]
    split
    · next heq =>
      obtain ⟨rfl, -⟩ := List.cons.inj heq
      exact absurd rfl hc
    · rfl
  · intro w hw
    cases w <;> first | rfl | exact absurd rfl hw
  · intro w hw gap rest hgap hrest
    cases w with
    | array es inside => exact readPair_array h h' es inside hgap rest
    | _ => cases hw

end Hosting.Json
