import Hosting.Json.Reader

/-! # Between the values

    Values stand between blanks, commas and brackets. What follows a value is one of these or
    nothing, so no value can run on into it, and no reader looks at the blanks in front.

    - `IsGap`, `afterGap_append`: blanks, and how they are passed over.
    - `StartsValue`, `Ends`: what a value starts with, and what can follow it.
    - `nextElement_comma`, `closeArray_close` and their like: from one element of an array to the
      next, from one member of an object to the next, and to the end.
-/

namespace Hosting.Json

variable {c : Char} {gap cs rest : List Char}

/-! ### Blanks -/

/-- Blanks only. -/
def IsGap (cs : List Char) : Prop :=
  ∀ c ∈ cs, isGap c = true

instance (cs : List Char) : Decidable (IsGap cs) :=
  decidable_of_iff (cs.all isGap = true) List.all_eq_true

theorem isGap_nil : IsGap [] :=
  fun _ h => by simp at h

theorem IsGap.append {gap' : List Char} (hgap : IsGap gap) (hgap' : IsGap gap') :
    IsGap (gap ++ gap') := by
  intro c hc
  rcases List.mem_append.1 hc with hc | hc
  · exact hgap c hc
  · exact hgap' c hc

theorem afterGap_append (hgap : IsGap gap) (cs : List Char) :
    afterGap (gap ++ cs) = afterGap cs := by
  induction gap with
  | nil => rfl
  | cons c gap ih =>
    have hc : isGap c = true := hgap c (by simp)
    have hrest : IsGap gap := fun d hd => hgap d (by simp [hd])
    show (c :: (gap ++ cs)).dropWhile isGap = _
    rw [List.dropWhile_cons_of_pos hc]
    exact ih hrest

theorem afterGap_cons (hc : isGap c = false) (cs : List Char) : afterGap (c :: cs) = c :: cs :=
  List.dropWhile_cons_of_neg (by simp [hc])

theorem isGap_of_isDigit (hc : c.isDigit = true) : isGap c = false := by
  apply Bool.eq_false_iff.2
  intro hgap
  simp only [isGap, Bool.or_eq_true, beq_iff_eq] at hgap
  rcases hgap with ((rfl | rfl) | rfl) | rfl <;> exact absurd hc (by decide)

theorem isGap_digit_or_sign (h : c = '-' ∨ c.isDigit = true) : isGap c = false := by
  rcases h with rfl | h
  · rfl
  · exact isGap_of_isDigit h

/-- A text that starts like a value. -/
def StartsValue (cs : List Char) : Prop :=
  ∃ c rest, cs = c :: rest ∧ isGap c = false ∧ c ≠ ']'

theorem word_append (cs rest : List Char) : word cs (cs ++ rest) = .ok rest := by
  induction cs with
  | nil => rfl
  | cons c cs ih =>
    rw [List.cons_append, word, if_pos rfl]
    exact ih

/-! ### What follows a value -/

/-- A text that can follow a value. -/
def Ends (cs : List Char) : Prop :=
  ∀ c rest, cs = c :: rest → isGap c = true ∨ c = ',' ∨ c = ']' ∨ c = '\x7d'

theorem ends_nil : Ends [] :=
  fun _ _ h => by simp at h

theorem Ends.gap_append (hgap : IsGap gap) (h : Ends cs) : Ends (gap ++ cs) := by
  cases gap with
  | nil => exact h
  | cons c gap =>
    rintro d tail heq
    obtain ⟨rfl, -⟩ := List.cons.inj heq
    exact .inl (hgap c (by simp))

theorem ends_close (hgap : IsGap gap) (hc : c = ']' ∨ c = '\x7d') (rest : List Char) :
    Ends (gap ++ c :: rest) := by
  refine Ends.gap_append hgap ?_
  intro d tail h
  obtain ⟨rfl, -⟩ := List.cons.inj h
  exact .inr (.inr hc)

theorem ends_comma (rest : List Char) : Ends (',' :: rest) := by
  intro d tail h
  obtain ⟨rfl, -⟩ := List.cons.inj h
  exact .inr (.inl rfl)

/-- What follows a value does not go on as a number. -/
theorem Ends.not_numeral (h : Ends (c :: cs)) :
    c.isDigit = false ∧ c ≠ '.' ∧ c ≠ 'e' ∧ c ≠ 'E' := by
  rcases h c cs rfl with hgap | rfl | rfl | rfl
  · simp only [isGap, Bool.or_eq_true, beq_iff_eq] at hgap
    rcases hgap with ((rfl | rfl) | rfl) | rfl <;> decide
  all_goals decide

/-! ### Arrays -/

theorem nextElement_gap (hgap : IsGap gap) (first : Bool) (cs : List Char) :
    nextElement first (gap ++ cs) = nextElement first cs := by
  unfold nextElement
  rw [afterGap_append hgap]

theorem nextElement_first (hgap : IsGap gap) (hcs : StartsValue cs) (rest : List Char) :
    nextElement true (gap ++ (cs ++ rest)) = .ok (some (cs ++ rest)) := by
  obtain ⟨c, tail, rfl, hc, hbracket⟩ := hcs
  unfold nextElement
  rw [afterGap_append hgap, List.cons_append, afterGap_cons hc]
  split
  · next heq => simp at heq
  · next heq => exact absurd (List.cons.inj heq).1 hbracket
  · next heq =>
    obtain ⟨rfl, rfl⟩ := List.cons.inj heq
    rfl

theorem nextElement_comma (hgap : IsGap gap) (hcs : StartsValue cs) (rest : List Char) :
    nextElement false (',' :: (gap ++ (cs ++ rest))) = .ok (some (cs ++ rest)) := by
  obtain ⟨c, tail, rfl, hc, hbracket⟩ := hcs
  have hnext : afterGap (gap ++ (c :: tail ++ rest)) = c :: (tail ++ rest) := by
    rw [afterGap_append hgap, List.cons_append, afterGap_cons hc]
  unfold nextElement
  rw [afterGap_cons rfl]
  split
  · next heq => simp at heq
  · next heq => exact absurd (List.cons.inj heq).1 (by decide)
  · next heq =>
    obtain ⟨rfl, rfl⟩ := List.cons.inj heq
    simp only [Bool.false_eq_true, if_false, if_true, hnext]
    split
    · next heq => simp at heq
    · next heq => exact absurd (List.cons.inj heq).1 hbracket
    · rfl

theorem nextElement_close (hgap : IsGap gap) (first : Bool) (rest : List Char) :
    nextElement first (gap ++ ']' :: rest) = .ok none := by
  unfold nextElement
  rw [afterGap_append hgap, afterGap_cons rfl]
  rfl

theorem closeArray_close (hgap : IsGap gap) (rest : List Char) :
    closeArray (gap ++ ']' :: rest) = .ok rest := by
  unfold closeArray
  rw [afterGap_append hgap, afterGap_cons rfl]
  rfl

theorem closeArray_comma (hgap : IsGap gap) (cs : List Char) :
    closeArray (gap ++ ',' :: cs) = .error .malformed := by
  unfold closeArray
  rw [afterGap_append hgap]
  rfl

/-- A value does not close an array. -/
theorem closeArray_value (hgap : IsGap gap) (hcs : StartsValue cs) (rest : List Char) :
    closeArray (gap ++ (cs ++ rest)) = .error .malformed := by
  obtain ⟨c, tail, rfl, hc, hbracket⟩ := hcs
  unfold closeArray
  rw [afterGap_append hgap, List.cons_append, afterGap_cons hc]
  split
  · next heq => cases heq
  · next heq => exact absurd (List.cons.inj heq).1 hbracket
  · rfl

/-! ### Objects -/

theorem nextKey_gap (hgap : IsGap gap) (first : Bool) (cs : List Char) :
    nextKey first (gap ++ cs) = nextKey first cs := by
  unfold nextKey
  rw [afterGap_append hgap]

theorem nextKey_close (hgap : IsGap gap) (first : Bool) (rest : List Char) :
    nextKey first (gap ++ '\x7d' :: rest) = .ok none := by
  unfold nextKey
  rw [afterGap_append hgap, afterGap_cons rfl]
  rfl

theorem afterColon_gap (hgap : IsGap gap) (rest : List Char) :
    afterColon (gap ++ ':' :: rest) = .ok rest := by
  unfold afterColon
  rw [afterGap_append hgap]
  rfl

theorem closeObject_close (hgap : IsGap gap) (rest : List Char) :
    closeObject (gap ++ '\x7d' :: rest) = .ok rest := by
  unfold closeObject
  rw [afterGap_append hgap, afterGap_cons rfl]
  rfl

theorem closeObject_comma (hgap : IsGap gap) (cs : List Char) :
    closeObject (gap ++ ',' :: cs) = .error .malformed := by
  unfold closeObject
  rw [afterGap_append hgap]
  rfl

end Hosting.Json
