import Hosting.Proofs.Json.Meanings

/-! # What a record makes of a text

    An object is read member by member. A key in any spelling is the string that it stands
    for; a member with the name of a field changes the record, and any other is skipped over,
    whatever its value is. So what comes of an object is a fold over its members, and the
    blanks, the spellings and the unknown members leave no trace in it. An array is read by the
    positions of its elements, and may be shorter than the table, but not longer.

    - `takeMember`, `takeElements`: what the members and the elements do to the record.
    - `memberSteps_text`, `positions_text`: the readers do the same.
    - `means_record`: the whole record.
    - `record_lacks`: a text that does not give a field that has to be there.
-/

namespace Hosting.Json

variable {α : Type} {fields : List (Field α)} {gap rest : List Char}

/-- The record after one more member. A second one of the same name is refused. -/
def takeMember (fields : List (Field α)) (state : Draft α) (m : Member Wording) :
    Option (Draft α) :=
  m.name?.bind fun key =>
    match fields.find? (·.name == key) with
    | none => some state
    | some f =>
      if state.2.contains key then none
      else (meaning f.read m.value).map fun update => (update state.1, key :: state.2)

/-! ### Members -/

/-- A member, from behind its opening quote. -/
theorem member_text (hreg : ∀ f ∈ fields, Regular f.read) (state : Draft α)
    (m : Member Wording) (hrest : Ends rest) :
    (member fields state (Piece.textOf m.key ++ '"' :: (m.afterKey.val ++ ':' ::
        (m.beforeValue.val ++ (m.value.text ++ rest))))).toOption =
      (takeMember fields state m).map (·, rest) := by
  have hkey := string_pieces m.key (m.afterKey.val ++ ':' :: (m.beforeValue.val ++
    (m.value.text ++ rest)))
  have hcolon := afterColon_gap m.afterKey.property (m.beforeValue.val ++ (m.value.text ++ rest))
  unfold member takeMember Member.name?
  rcases fails_or_reads hkey with ⟨fault, hfault, hnone⟩ | ⟨key, hok, hname⟩
  · rw [hfault, hnone]
    rfl
  · rw [hok, hname]
    simp only [Option.bind_some]
    -- the name decides whether the value is skipped over or read
    cases hfind : fields.find? (·.name == key) with
    | none =>
      simp only [hcolon, skip_text m.value m.beforeValue.property hrest]
      rfl
    | some f =>
      have hread := hreg f (List.mem_of_find?_eq_some hfind) m.value m.beforeValue.property hrest
      simp only
      by_cases hseen : state.2.contains key = true
      · rw [if_pos hseen, if_pos hseen]
        rfl
      · rw [if_neg hseen, if_neg hseen, hcolon]
        simp only
        rcases fails_or_reads hread with ⟨fault, hfault, hnone⟩ | ⟨update, hok, hsome⟩
        · rw [hfault, hnone]
          rfl
        · rw [hok, hsome]
          rfl

theorem nextKey_quoted_first (hgap : IsGap gap) (key : List Piece) (rest : List Char) :
    nextKey true (gap ++ (Piece.quotedText key ++ rest)) =
      .ok (some (Piece.textOf key ++ '"' :: rest)) := by
  rw [nextKey_gap hgap, quotedText_append]
  rfl

theorem nextKey_quoted_comma (hgap : IsGap gap) (key : List Piece) (rest : List Char) :
    nextKey false (',' :: (gap ++ (Piece.quotedText key ++ rest))) =
      .ok (some (Piece.textOf key ++ '"' :: rest)) := by
  have hnext : afterGap (gap ++ (Piece.quotedText key ++ rest)) =
      '"' :: (Piece.textOf key ++ '"' :: rest) := by
    rw [afterGap_append hgap, quotedText_append, afterGap_cons rfl]
  unfold nextKey
  rw [afterGap_cons rfl]
  split
  · next heq => cases heq
  · next heq => exact absurd (List.cons.inj heq).1 (by decide)
  · next heq =>
    obtain ⟨rfl, rfl⟩ := List.cons.inj heq
    simp only [Bool.false_eq_true, if_false, if_true, hnext]

/-- One member and those behind it. -/
theorem memberSteps_cons (hreg : ∀ f ∈ fields, Regular f.read) {state : Draft α}
    {first : Bool} {m : Member Wording} {ms : List (Member Wording)} {n : Nat}
    {cs rest tail : List Char}
    (hnext : nextKey first cs = .ok (some (Piece.textOf m.key ++ '"' :: (m.afterKey.val ++ ':' ::
      (m.beforeValue.val ++ (m.value.text ++ rest))))))
    (hrest : Ends rest)
    (htail : ∀ state, (memberSteps fields n false state rest).toOption =
      (ms.foldlM (takeMember fields) state).map (·, tail)) :
    (memberSteps fields (n + 1) first state cs).toOption =
      ((m :: ms).foldlM (takeMember fields) state).map (·, tail) := by
  have hmember := member_text hreg state m hrest
  rw [memberSteps, hnext, List.foldlM_cons]
  simp only
  rcases fails_or_reads hmember with ⟨fault, hfault, hnone⟩ | ⟨next, hok, hsome⟩
  · rw [hfault, hnone]
    rfl
  · rw [hok, hsome]
    exact htail next

/-- The members after the first, up to the closing brace. -/
theorem memberSteps_text (hreg : ∀ f ∈ fields, Regular f.read)
    (ms : List (Member Wording)) (inside : Gap) {n : Nat} (hn : ms.length < n) {gap : List Char}
    (hgap : IsGap gap) (rest : List Char) :
    ∃ gap', IsGap gap' ∧ ∀ state, (memberSteps fields n false state
        (gap ++ (Wording.moreMembers ms ++ (inside.val ++ '\x7d' :: rest)))).toOption =
      (ms.foldlM (takeMember fields) state).map (·, gap' ++ '\x7d' :: rest) := by
  -- the blanks behind the last member and those inside the braces come out as one gap
  induction ms generalizing n gap with
  | nil =>
    obtain ⟨k, rfl⟩ : ∃ k, n = k + 1 := ⟨n - 1, by simp at hn; omega⟩
    refine ⟨gap ++ inside.val, hgap.append inside.property, fun state => ?_⟩
    rw [Wording.moreMembers, List.nil_append, memberSteps, nextKey_gap hgap,
      nextKey_close inside.property, List.append_assoc]
    rfl
  | cons m ms ih =>
    obtain ⟨k, rfl⟩ : ∃ k, n = k + 1 := ⟨n - 1, by simp at hn; omega⟩
    obtain ⟨before, key, afterKey, beforeValue, v, after⟩ := m
    obtain ⟨gap', hgap', htail⟩ := ih (n := k) (by simpa using hn) after.property
    have hends := (ends_moreMembers ms inside rest).gap_append after.property
    refine ⟨gap', hgap', fun state => memberSteps_cons hreg ?_ hends htail⟩
    simp only [Wording.moreMembers, List.cons_append, List.append_assoc]
    rw [nextKey_gap hgap, nextKey_quoted_comma before.property]

/-- All members, up to the closing brace. -/
theorem members_text (hreg : ∀ f ∈ fields, Regular f.read) (ms : List (Member Wording))
    (inside : Gap) {n : Nat} (hn : ms.length < n) (rest : List Char) :
    ∃ gap, IsGap gap ∧ ∀ state, (memberSteps fields n true state
        (Wording.membersText ms ++ (inside.val ++ '\x7d' :: rest))).toOption =
      (ms.foldlM (takeMember fields) state).map (·, gap ++ '\x7d' :: rest) := by
  obtain ⟨k, rfl⟩ : ∃ k, n = k + 1 := ⟨n - 1, by omega⟩
  cases ms with
  | nil =>
    refine ⟨inside.val, inside.property, fun state => ?_⟩
    rw [Wording.membersText, List.nil_append, memberSteps, nextKey_close inside.property]
    rfl
  | cons m ms =>
    obtain ⟨before, key, afterKey, beforeValue, v, after⟩ := m
    obtain ⟨gap, hgap, htail⟩ := memberSteps_text hreg ms inside (n := k) (by simpa using hn)
      after.property rest
    have hends := (ends_moreMembers ms inside rest).gap_append after.property
    refine ⟨gap, hgap, fun state => memberSteps_cons hreg ?_ hends htail⟩
    simp only [Wording.membersText, List.append_assoc, List.cons_append]
    rw [nextKey_quoted_first before.property]

theorem length_le_moreMembers (ms : List (Member Wording)) :
    ms.length ≤ (Wording.moreMembers ms).length := by
  induction ms with
  | nil => simp
  | cons m ms ih =>
    simp only [Wording.moreMembers, List.length_cons, List.length_append]
    omega

theorem length_le_membersText (ms : List (Member Wording)) :
    ms.length ≤ (Wording.membersText ms).length := by
  cases ms with
  | nil => simp
  | cons m ms =>
    have hmore := length_le_moreMembers ms
    simp only [Wording.membersText, Piece.quotedText, List.length_cons, List.length_append]
    omega

/-! ### Objects -/

/-- What comes of an object is what its members make of the record, if nothing is missing. -/
theorem record_object (hreg : ∀ f ∈ fields, Regular f.read) (start : α)
    (ms : List (Member Wording)) (inside : Gap) (hgap : IsGap gap) (rest : List Char) :
    (record fields start (gap ++ ((Wording.object ms inside).text ++ rest))).toOption =
      ((ms.foldlM (takeMember fields) (start, [])).bind
        fun state => (finish fields state).toOption).map (·, rest) := by
  -- each member has a character at least, so the text itself is budget enough
  have hlength := length_le_membersText ms
  obtain ⟨gap', hgap', hsteps⟩ := members_text hreg ms inside
    (n := (Wording.membersText ms ++ (inside.val ++ '\x7d' :: rest)).length + 1)
    (by simp only [List.length_append]; omega) rest
  unfold record
  rw [afterGap_append hgap, Wording.text_object_append, afterGap_cons rfl]
  simp only
  rcases fails_or_reads (hsteps (start, [])) with ⟨fault, hfault, hnone⟩ | ⟨state, hok, hsome⟩
  · rw [hfault, hnone]
    rfl
  · rw [hok, hsome]
    simp only [Option.bind_some]
    cases finish fields state with
    | error fault => rfl
    | ok v =>
      simp only
      rw [closeObject_close hgap']
      rfl

/-! ### Elements -/

/-- The record after the elements of an array, each read by the field at its position. -/
def takeElements : List (Field α) → List (Element Wording) → Draft α → Option (Draft α)
  | _, [], state => some state
  | [], _ :: _, _ => none
  | f :: fields, e :: es, state =>
    (meaning f.read e.value).bind fun update =>
      takeElements fields es (update state.1, f.name :: state.2)

/-- The positions of an array and its closing bracket. -/
def closedPositions (fields : List (Field α)) (first : Bool) (state : Draft α) :
    Reader (Draft α) := fun cs =>
  (positions fields first state cs).bind fun found => (closeArray found.2).map (found.1, ·)

theorem closedPositions_close {first : Bool} {cs : List Char} (state : Draft α)
    (hnext : nextElement first cs = .ok none) (hclose : closeArray cs = .ok rest) :
    closedPositions fields first state cs = .ok (state, rest) := by
  have hstay : positions fields first state cs = .ok (state, cs) := by
    cases fields with
    | nil => rfl
    | cons f fields => rw [positions, hnext]
  unfold closedPositions
  rw [hstay]
  show (closeArray cs).map (state, ·) = _
  rw [hclose]
  rfl

/-- Where no field is left, an array has to end. -/
theorem closedPositions_nil {first : Bool} {cs : List Char} {fault : Fault} (state : Draft α)
    (hclose : closeArray cs = .error fault) :
    (closedPositions [] first state cs).toOption = none := by
  show ((closeArray cs).map (state, ·)).toOption = none
  rw [hclose]
  rfl

/-- An element is read by the field at its position, and then those behind it. -/
theorem closedPositions_cons {f : Field α} (hf : Regular f.read) {first : Bool}
    {e : Element Wording} {es : List (Element Wording)} {cs tail : List Char}
    (hnext : nextElement first cs = .ok (some (e.value.text ++ tail))) (htail : Ends tail)
    (hmore : ∀ state, (closedPositions fields false state tail).toOption =
      (takeElements fields es state).map (·, rest)) (state : Draft α) :
    (closedPositions (f :: fields) first state cs).toOption =
      (takeElements (f :: fields) (e :: es) state).map (·, rest) := by
  have hread := hf.here e.value htail
  unfold closedPositions
  rw [positions, hnext, takeElements]
  simp only
  rcases fails_or_reads hread with ⟨fault, hfault, hnone⟩ | ⟨update, hok, hsome⟩
  · rw [hfault, hnone]
    rfl
  · rw [hok, hsome]
    exact hmore _

/-- The elements after the first, up to the closing bracket. -/
theorem positions_more (hreg : ∀ f ∈ fields, Regular f.read) (es : List (Element Wording))
    (inside : Gap) (hgap : IsGap gap) (rest : List Char) (state : Draft α) :
    (closedPositions fields false state
        (gap ++ (Wording.moreElements es ++ (inside.val ++ ']' :: rest)))).toOption =
      (takeElements fields es state).map (·, rest) := by
  -- fields and elements are used up together, and elements that are left over are refused
  induction es generalizing fields gap state with
  | nil =>
    have hinside := hgap.append inside.property
    rw [Wording.moreElements, List.nil_append, ← List.append_assoc,
      closedPositions_close state (nextElement_close hinside _ _) (closeArray_close hinside _)]
    cases fields <;> rfl
  | cons e es ih =>
    obtain ⟨before, v, after⟩ := e
    have hends := (ends_moreElements es inside rest).gap_append after.property
    simp only [Wording.moreElements, List.cons_append, List.append_assoc]
    cases fields with
    | nil => exact closedPositions_nil state (closeArray_comma hgap _)
    | cons f fields =>
      refine closedPositions_cons (hreg f (by simp)) ?_ hends (fun state => ?_) state
      · rw [nextElement_gap hgap, nextElement_comma before.property v.startsValue]
      · exact ih (fun f hf => hreg f (by simp [hf])) after.property state

/-- All elements, up to the closing bracket. -/
theorem positions_text (hreg : ∀ f ∈ fields, Regular f.read) (es : List (Element Wording))
    (inside : Gap) (rest : List Char) (state : Draft α) :
    (closedPositions fields true state
        (Wording.elementsText es ++ (inside.val ++ ']' :: rest))).toOption =
      (takeElements fields es state).map (·, rest) := by
  cases es with
  | nil =>
    rw [Wording.elementsText, List.nil_append,
      closedPositions_close state (nextElement_close inside.property _ _)
        (closeArray_close inside.property _)]
    cases fields <;> rfl
  | cons e es =>
    obtain ⟨before, v, after⟩ := e
    have hends := (ends_moreElements es inside rest).gap_append after.property
    simp only [Wording.elementsText, List.append_assoc]
    cases fields with
    | nil => exact closedPositions_nil state (closeArray_value before.property v.startsValue _)
    | cons f fields =>
      refine closedPositions_cons (hreg f (by simp))
        (nextElement_first before.property v.startsValue _) hends (fun state => ?_) state
      exact positions_more (fun f hf => hreg f (by simp [hf])) es inside after.property rest state

/-! ### Records -/

/-- The record is checked before the bracket is looked at, and either may refuse it. -/
theorem record_open (fields : List (Field α)) (start : α) (hgap : IsGap gap) (cs : List Char) :
    (record fields start (gap ++ '[' :: cs)).toOption =
      (closedPositions fields true (start, []) cs).toOption.bind fun found =>
        (finish fields found.1).toOption.map (·, found.2) := by
  unfold record closedPositions
  rw [afterGap_append hgap, afterGap_cons rfl]
  -- which of the two faults comes first is lost as soon as both are none
  cases hpositions : positions fields true (start, []) cs with
  | error fault =>
    simp only [hpositions]
    rfl
  | ok found =>
    obtain ⟨state, r⟩ := found
    simp only [hpositions, Except.bind, toOption_map]
    cases hfinish : finish fields state with
    | error fault => cases closeArray r <;> simp [hfinish, Except.toOption]
    | ok v => cases closeArray r <;> simp [hfinish, Except.toOption, Except.map]

/-- What comes of an array is what its elements make of the record, if nothing is missing. -/
theorem record_array (hreg : ∀ f ∈ fields, Regular f.read) (start : α)
    (es : List (Element Wording)) (inside : Gap) (hgap : IsGap gap) (rest : List Char) :
    (record fields start (gap ++ ((Wording.array es inside).text ++ rest))).toOption =
      ((takeElements fields es (start, [])).bind
        fun state => (finish fields state).toOption).map (·, rest) := by
  rw [Wording.text_array_append, record_open fields start hgap, positions_text hreg]
  cases takeElements fields es (start, []) <;> rfl

/-- What a record makes of a text. -/
def recordOf (fields : List (Field α)) (start : α) : Wording → Option α
  | .object ms _ =>
    (ms.foldlM (takeMember fields) (start, [])).bind fun state => (finish fields state).toOption
  | .array es _ =>
    (takeElements fields es (start, [])).bind fun state => (finish fields state).toOption
  | _ => none

theorem means_record (hreg : ∀ f ∈ fields, Regular f.read) (start : α) :
    Means (record fields start) (recordOf fields start) := by
  intro w gap rest hgap hrest
  have hother (hobject : w.kind ≠ .object) (harray : w.kind ≠ .array) :
      (record fields start (gap ++ (w.text ++ rest))).toOption = none := by
    obtain ⟨c, tail, htext, hc, hkind⟩ := w.first
    unfold record
    rw [afterGap_append hgap, htext, List.cons_append, afterGap_cons hc]
    split
    · next heq =>
      obtain ⟨rfl, -⟩ := List.cons.inj heq
      exact absurd hkind.symm hobject
    · next heq =>
      obtain ⟨rfl, -⟩ := List.cons.inj heq
      exact absurd hkind.symm harray
    · rfl
  cases w with
  | object ms inside => exact record_object hreg start ms inside hgap rest
  | array es inside => exact record_array hreg start es inside hgap rest
  | _ => exact hother (by simp [Wording.kind]) (by simp [Wording.kind])

theorem regular_record (hreg : ∀ f ∈ fields, Regular f.read) (start : α) :
    Regular (record fields start) :=
  (means_record hreg start).regular

/-! ### What is missing -/

/-- The text gives the field: by a member of an object, or by an element of an array at its
    position among the names. -/
def Wording.Gives (names : List String) (name : String) : Wording → Prop
  | .object ms _ => some name ∈ ms.map Member.name?
  | .array es _ => name ∈ names.take es.length
  | _ => False

instance (names : List String) (name : String) : (w : Wording) → Decidable (w.Gives names name)
  | .object ms _ => inferInstanceAs (Decidable (some name ∈ ms.map Member.name?))
  | .array es _ => inferInstanceAs (Decidable (name ∈ names.take es.length))
  | .null | .bool _ | .number _ | .quoted _ => inferInstanceAs (Decidable False)

/-- The names that are noted are those of members. -/
theorem noted_of_foldlM {ms : List (Member Wording)} {state next : Draft α}
    (h : ms.foldlM (takeMember fields) state = some next) {name : String}
    (hname : name ∈ next.2) : name ∈ state.2 ∨ some name ∈ ms.map Member.name? := by
  -- a name that is not noted at the end of the first member comes of one behind it
  induction ms generalizing state with
  | nil =>
    obtain rfl := Option.some.inj h
    exact .inl hname
  | cons m ms ih =>
    rw [List.foldlM_cons] at h
    obtain ⟨middle, hmiddle, h⟩ := Option.bind_eq_some_iff.1 h
    rcases ih h with hnoted | hmember
    · unfold takeMember at hmiddle
      obtain ⟨key, hkey, hmiddle⟩ := Option.bind_eq_some_iff.1 hmiddle
      split at hmiddle
      · obtain rfl := Option.some.inj hmiddle
        exact .inl hnoted
      · split at hmiddle
        · cases hmiddle
        · obtain ⟨update, -, rfl⟩ := Option.map_eq_some_iff.1 hmiddle
          rcases List.mem_cons.1 hnoted with rfl | hold
          · exact .inr (by simp [hkey])
          · exact .inl hold
    · exact .inr (by simp [hmember])

/-- The names that are noted of an array are those at the positions of its elements. -/
theorem noted_of_takeElements {es : List (Element Wording)} {state next : Draft α}
    (h : takeElements fields es state = some next) {name : String} (hname : name ∈ next.2) :
    name ∈ state.2 ∨ name ∈ (fields.map (·.name)).take es.length := by
  -- each element notes the name at the head of the table
  induction es generalizing fields state with
  | nil =>
    rw [takeElements] at h
    obtain rfl := Option.some.inj h
    exact .inl hname
  | cons e es ih =>
    cases fields with
    | nil => cases h
    | cons f fields =>
      obtain ⟨update, -, h⟩ := Option.bind_eq_some_iff.1 h
      rcases ih h with hnoted | hlater
      · rcases List.mem_cons.1 hnoted with rfl | hold
        · exact .inr (by simp)
        · exact .inl hold
      · exact .inr (by simp [hlater])

theorem not_finish_of_missing {state : Draft α} {f : Field α} (hf : f ∈ fields)
    (hreq : f.required = true) (hmissing : f.name ∉ state.2) :
    (finish fields state).toOption = none := by
  unfold finish
  rw [if_neg]
  · rfl
  · intro hall
    have hnoted := List.all_eq_true.1 hall f hf
    simp [hreq, hmissing] at hnoted

/-- A text that does not give a field that has to be there is refused. -/
theorem record_lacks (hreg : ∀ f ∈ fields, Regular f.read) (start : α) {f : Field α}
    (hf : f ∈ fields) (hreq : f.required = true) {w : Wording}
    (hlacks : ¬ w.Gives (fields.map (·.name)) f.name) : meaning (record fields start) w = none := by
  rw [(means_record hreg start).meaning_eq]
  cases w with
  | object ms inside =>
    rw [recordOf, Option.bind_eq_none_iff]
    intro state hstate
    refine not_finish_of_missing hf hreq fun hnoted => ?_
    rcases noted_of_foldlM hstate hnoted with hnone | hmember
    · cases hnone
    · exact hlacks hmember
  | array es inside =>
    rw [recordOf, Option.bind_eq_none_iff]
    intro state hstate
    refine not_finish_of_missing hf hreq fun hnoted => ?_
    rcases noted_of_takeElements hstate hnoted with hnone | helement
    · cases hnone
    · exact hlacks helement
  | _ => rfl

end Hosting.Json
