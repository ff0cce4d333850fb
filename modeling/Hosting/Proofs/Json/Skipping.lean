import Hosting.Json.Skip
import Hosting.Proofs.Json.Escapes
import Hosting.Proofs.Json.Numerals

/-! # Skipping over any value

    The skipping goes token by token and keeps the open brackets in a list. Over a whole value
    it comes back to the brackets that were open before, whatever the value holds and however
    deeply it nests, and it takes a token for each character at most.

    - `Passes`: what so many tokens come to.
    - `passes`: one value, together with the rest of an array and of an object, by the
      structure of the value.
    - `skip_text`: a value is skipped over whole.
-/

namespace Hosting.Json

variable {gap cs rest : List Char} {open' : List Bracket}

/-! ### What a value starts with -/

theorem Number.exists_cons (n : Number) :
    ∃ c tail, n.text = c :: tail ∧ (c = '-' ∨ c.isDigit = true) := by
  unfold text body
  cases n.negative with
  | true => exact ⟨'-', _, rfl, .inl rfl⟩
  | false =>
    obtain ⟨c, ds, hds, hc⟩ := n.whole.exists_cons
    exact ⟨c, ds ++ n.tail, by simp [hds], .inr hc⟩

theorem Wording.startsValue (w : Wording) : StartsValue w.text := by
  cases w with
  | null => exact ⟨'n', _, rfl, rfl, by decide⟩
  | bool b =>
    cases b with
    | true => exact ⟨'t', _, rfl, rfl, by decide⟩
    | false => exact ⟨'f', _, rfl, rfl, by decide⟩
  | number n =>
    obtain ⟨c, tail, htext, hc⟩ := n.exists_cons
    refine ⟨c, tail, htext, isGap_digit_or_sign hc, ?_⟩
    rintro rfl
    simp at hc
  | quoted ps => exact ⟨'"', _, rfl, rfl, by decide⟩
  | array es inside => exact ⟨'[', _, rfl, rfl, by decide⟩
  | object ms inside => exact ⟨'\x7b', _, rfl, rfl, by decide⟩

/-! ### What follows a value -/

theorem ends_moreElements (es : List (Element Wording)) (inside : Gap) (rest : List Char) :
    Ends (Wording.moreElements es ++ (inside.val ++ ']' :: rest)) := by
  cases es with
  | nil => exact ends_close inside.property (.inl rfl) rest
  | cons e es => exact ends_comma _

theorem ends_moreMembers (ms : List (Member Wording)) (inside : Gap) (rest : List Char) :
    Ends (Wording.moreMembers ms ++ (inside.val ++ '\x7d' :: rest)) := by
  cases ms with
  | nil => exact ends_close inside.property (.inr rfl) rest
  | cons m ms => exact ends_comma _

/-! ### Tokens -/

/-- After `k` tokens the skipping has come from one state to the other. -/
def Passes (k : Nat) (s t : SkipState) : Prop :=
  ∀ budget : List Char, k ≤ budget.length → skipSteps budget s = skipSteps (budget.drop k) t

theorem Passes.trans {j k : Nat} {s t u : SkipState} (h : Passes j s t) (h' : Passes k t u) :
    Passes (j + k) s u := by
  intro budget hle
  rw [h budget (by omega), h' _ (by rw [List.length_drop]; omega), List.drop_drop]

theorem passes_value {next : SkipState} (h : skipValue open' cs = .ok next) :
    Passes 1 (.value, open', cs) next := by
  intro budget hle
  obtain ⟨b, budget, rfl⟩ := List.exists_cons_of_length_pos hle
  rw [skipSteps]
  simp only [h]
  rfl

theorem passes_key {next : SkipState} (h : skipKey open' cs = .ok next) :
    Passes 1 (.key, open', cs) next := by
  intro budget hle
  obtain ⟨b, budget, rfl⟩ := List.exists_cons_of_length_pos hle
  rw [skipSteps]
  simp only [h]
  rfl

theorem passes_more {bracket : Bracket} {next : SkipState}
    (h : skipMore bracket open' cs = .ok next) :
    Passes 1 (.more, bracket :: open', cs) next := by
  intro budget hle
  obtain ⟨b, budget, rfl⟩ := List.exists_cons_of_length_pos hle
  rw [skipSteps]
  simp only [h]
  rfl

/-! ### Tokens of a value -/

theorem skipValue_bool (hgap : IsGap gap) (b : Bool) (rest : List Char) :
    skipValue open' (gap ++ (boolWord b ++ rest)) = .ok (.more, open', rest) := by
  unfold skipValue
  rw [afterGap_append hgap]
  cases b with
  | true =>
    show (word _ (['r', 'u', 'e'] ++ rest)).map _ = _
    rw [word_append]
    rfl
  | false =>
    show (word _ (['a', 'l', 's', 'e'] ++ rest)).map _ = _
    rw [word_append]
    rfl

theorem skipValue_null (hgap : IsGap gap) (rest : List Char) :
    skipValue open' (gap ++ (['n', 'u', 'l', 'l'] ++ rest)) = .ok (.more, open', rest) := by
  unfold skipValue
  rw [afterGap_append hgap]
  show (word _ (['u', 'l', 'l'] ++ rest)).map _ = _
  rw [word_append]
  rfl

theorem skipValue_quoted (hgap : IsGap gap) (ps : List Piece) (rest : List Char) :
    skipValue open' (gap ++ (Piece.quotedText ps ++ rest)) = .ok (.more, open', rest) := by
  unfold skipValue
  rw [afterGap_append hgap, quotedText_append, afterGap_cons rfl]
  simp only [skipString_pieces]
  rfl

theorem skipValue_number (hgap : IsGap gap) (n : Number) (hrest : Ends rest) :
    skipValue open' (gap ++ (n.text ++ rest)) = .ok (.more, open', rest) := by
  have hskip := skipNumber_text n hrest
  obtain ⟨c, tail, htext, hc⟩ := n.exists_cons
  rw [htext, List.cons_append] at hskip
  rw [htext, List.cons_append]
  unfold skipValue
  rw [afterGap_append hgap, afterGap_cons (isGap_digit_or_sign hc)]
  split
  case h_1 heq => cases heq
  case h_8 heq =>
    obtain ⟨rfl, rfl⟩ := List.cons.inj heq
    rw [if_pos (by simpa using hc), hskip]
    rfl
  -- neither a sign nor a digit starts a value of another kind
  all_goals next heq => exact absurd ((List.cons.inj heq).1 ▸ hc) (by decide)

/-! ### Brackets -/

def Bracket.opening : Bracket → Char
  | .array => '['
  | .object => '\x7b'

def Bracket.closing : Bracket → Char
  | .array => ']'
  | .object => '\x7d'

/-- What is inside the bracket, in front of each comma and behind it. -/
def Bracket.inside : Bracket → Expect
  | .array => .value
  | .object => .key

variable (bracket : Bracket)

theorem skipValue_open (hgap : IsGap gap) (cs : List Char) :
    skipValue open' (gap ++ bracket.opening :: cs) = skipOpen open' bracket cs := by
  unfold skipValue
  rw [afterGap_append hgap]
  cases bracket <;> rfl

theorem skipOpen_first (hgap : IsGap gap) {c : Char} (hc : isGap c = false)
    (hclosing : c ≠ bracket.closing) (cs : List Char) :
    skipOpen open' bracket (gap ++ c :: cs) =
      .ok (bracket.inside, bracket :: open', c :: cs) := by
  unfold skipOpen
  rw [afterGap_append hgap, afterGap_cons hc]
  cases bracket with
  | array =>
    split
    case h_3 => rfl
    all_goals simp_all [Bracket.closing]
  | object =>
    split
    case h_5 => rfl
    all_goals simp_all [Bracket.closing]

theorem skipOpen_close (hgap : IsGap gap) (rest : List Char) :
    skipOpen open' bracket (gap ++ bracket.closing :: rest) = .ok (.more, open', rest) := by
  unfold skipOpen
  rw [afterGap_append hgap]
  cases bracket <;> rfl

theorem skipMore_comma (hgap : IsGap gap) (rest : List Char) :
    skipMore bracket open' (gap ++ ',' :: rest) = .ok (bracket.inside, bracket :: open', rest) := by
  unfold skipMore
  rw [afterGap_append hgap]
  cases bracket <;> rfl

theorem skipMore_close (hgap : IsGap gap) (rest : List Char) :
    skipMore bracket open' (gap ++ bracket.closing :: rest) = .ok (.more, open', rest) := by
  unfold skipMore
  rw [afterGap_append hgap]
  cases bracket <;> rfl

theorem skipKey_quoted (hgap : IsGap gap) (key : List Piece) (afterKey : Gap) (rest : List Char) :
    skipKey open' (gap ++ (Piece.quotedText key ++ (afterKey.val ++ ':' :: rest))) =
      .ok (.value, open', rest) := by
  unfold skipKey
  rw [afterGap_append hgap, quotedText_append, afterGap_cons rfl]
  simp only [skipString_pieces]
  rw [afterGap_append afterKey.property]
  rfl

theorem passes_keyed {j : Nat} {next : SkipState} (hgap : IsGap gap) (key : List Piece)
    (afterKey : Gap) (h : Passes j (.value, open', cs) next) :
    Passes (1 + j) (.key, open', gap ++ (Piece.quotedText key ++ (afterKey.val ++ ':' :: cs)))
      next :=
  (passes_key (skipKey_quoted hgap key afterKey cs)).trans h

theorem passes_comma {j : Nat} {next : SkipState} (hgap : IsGap gap)
    (h : Passes j (bracket.inside, bracket :: open', cs) next) :
    Passes (1 + j) (.more, bracket :: open', gap ++ ',' :: cs) next :=
  (passes_more (skipMore_comma bracket hgap cs)).trans h

/-! ### Whole values -/

open Wording

mutual

/-- A value leaves the brackets open that were open before it. -/
theorem passes (w : Wording) (open' : List Bracket) {gap rest : List Char} (hgap : IsGap gap)
    (hrest : Ends rest) :
    ∃ k, k ≤ w.text.length ∧
      Passes k (.value, open', gap ++ (w.text ++ rest)) (.more, open', rest) := by
  match w with
  | .null => exact ⟨1, by simp [Wording.text], passes_value (skipValue_null hgap rest)⟩
  | .bool b =>
    refine ⟨1, ?_, passes_value (skipValue_bool hgap b rest)⟩
    cases b <;> simp [Wording.text, boolWord]
  | .number n =>
    refine ⟨1, ?_, passes_value (skipValue_number hgap n hrest)⟩
    obtain ⟨c, tail, htext, -⟩ := n.exists_cons
    simp [Wording.text, htext]
  | .quoted ps =>
    exact ⟨1, by simp [Wording.text, Piece.quotedText],
      passes_value (skipValue_quoted hgap ps rest)⟩
  | .array [] inside =>
    refine ⟨1, by simp [Wording.text], passes_value ?_⟩
    have hopen : gap ++ ((Wording.array [] inside).text ++ rest) =
        gap ++ Bracket.array.opening :: (inside.val ++ Bracket.array.closing :: rest) := by
      simp [Wording.text, elementsText, Bracket.opening, Bracket.closing]
    rw [hopen, skipValue_open .array hgap, skipOpen_close .array inside.property]
  | .array (⟨before, v, after⟩ :: es) inside =>
    obtain ⟨c, tail, htext, hc, hclosing⟩ := v.startsValue
    have hends := (ends_moreElements es inside rest).gap_append after.property
    obtain ⟨j, hj, hvalue⟩ := passes v (.array :: open') isGap_nil hends
    obtain ⟨k, hk, hmore⟩ := passes_elements es open' inside after.property rest
    have hopen : skipValue open' (gap ++ ((Wording.array (⟨before, v, after⟩ :: es) inside).text ++
        rest)) = .ok (.value, .array :: open', [] ++ (v.text ++ (after.val ++
          (moreElements es ++ (inside.val ++ ']' :: rest))))) := by
      simp only [Wording.text, elementsText, htext, List.cons_append, List.append_assoc,
        List.nil_append]
      exact (skipValue_open .array hgap _).trans
        (skipOpen_first .array before.property hc hclosing _)
    refine ⟨1 + j + k, ?_, ((passes_value hopen).trans hvalue).trans hmore⟩
    simp only [Wording.text, elementsText, List.length_cons, List.length_append, List.length_nil]
    omega
  | .object [] inside =>
    refine ⟨1, by simp [Wording.text], passes_value ?_⟩
    have hopen : gap ++ ((Wording.object [] inside).text ++ rest) =
        gap ++ Bracket.object.opening :: (inside.val ++ Bracket.object.closing :: rest) := by
      simp [Wording.text, membersText, Bracket.opening, Bracket.closing]
    rw [hopen, skipValue_open .object hgap, skipOpen_close .object inside.property]
  | .object (⟨before, key, afterKey, beforeValue, v, after⟩ :: ms) inside =>
    have hends := (ends_moreMembers ms inside rest).gap_append after.property
    obtain ⟨j, hj, hvalue⟩ := passes v (.object :: open') beforeValue.property hends
    obtain ⟨k, hk, hmore⟩ := passes_members ms open' inside after.property rest
    have hopen : skipValue open' (gap ++ ((Wording.object
        (⟨before, key, afterKey, beforeValue, v, after⟩ :: ms) inside).text ++ rest)) =
        .ok (.key, .object :: open', [] ++ (Piece.quotedText key ++ (afterKey.val ++ ':' ::
          (beforeValue.val ++ (v.text ++ (after.val ++
            (moreMembers ms ++ (inside.val ++ '\x7d' :: rest)))))))) := by
      simp only [Wording.text, membersText, Piece.quotedText, List.cons_append, List.append_assoc,
        List.nil_append]
      exact (skipValue_open .object hgap _).trans
        (skipOpen_first .object before.property rfl (by decide) _)
    have hkey := passes_keyed isGap_nil key afterKey hvalue
    refine ⟨1 + (1 + j) + k, ?_, ((passes_value hopen).trans hkey).trans hmore⟩
    simp only [Wording.text, membersText, List.length_cons, List.length_append, List.length_nil]
    omega

/-- The elements after the first, and the closing bracket. -/
theorem passes_elements (es : List (Element Wording)) (open' : List Bracket) (inside : Gap)
    {gap : List Char} (hgap : IsGap gap) (rest : List Char) :
    ∃ k, k ≤ (moreElements es).length + 1 ∧
      Passes k (.more, .array :: open', gap ++ (moreElements es ++ (inside.val ++ ']' :: rest)))
        (.more, open', rest) := by
  match es with
  | [] =>
    refine ⟨1, by omega, passes_more ?_⟩
    rw [moreElements, List.nil_append, ← List.append_assoc]
    exact skipMore_close .array (hgap.append inside.property) rest
  | ⟨before, v, after⟩ :: es =>
    have hends := (ends_moreElements es inside rest).gap_append after.property
    obtain ⟨j, hj, hvalue⟩ := passes v (.array :: open') before.property hends
    obtain ⟨k, hk, hmore⟩ := passes_elements es open' inside after.property rest
    refine ⟨1 + j + k, ?_, ?_⟩
    · simp only [moreElements, List.length_cons, List.length_append]
      omega
    · simp only [moreElements, List.cons_append, List.append_assoc]
      exact (passes_comma .array hgap hvalue).trans hmore

/-- The members after the first, and the closing brace. -/
theorem passes_members (ms : List (Member Wording)) (open' : List Bracket) (inside : Gap)
    {gap : List Char} (hgap : IsGap gap) (rest : List Char) :
    ∃ k, k ≤ (moreMembers ms).length + 1 ∧
      Passes k (.more, .object :: open', gap ++ (moreMembers ms ++ (inside.val ++ '\x7d' :: rest)))
        (.more, open', rest) := by
  match ms with
  | [] =>
    refine ⟨1, by omega, passes_more ?_⟩
    rw [moreMembers, List.nil_append, ← List.append_assoc]
    exact skipMore_close .object (hgap.append inside.property) rest
  | ⟨before, key, afterKey, beforeValue, v, after⟩ :: ms =>
    have hends := (ends_moreMembers ms inside rest).gap_append after.property
    obtain ⟨j, hj, hvalue⟩ := passes v (.object :: open') beforeValue.property hends
    obtain ⟨k, hk, hmore⟩ := passes_members ms open' inside after.property rest
    have hkey := passes_keyed before.property key afterKey hvalue
    refine ⟨1 + (1 + j) + k, ?_, ?_⟩
    · simp only [moreMembers, List.length_cons, List.length_append]
      omega
    · simp only [moreMembers, List.cons_append, List.append_assoc]
      exact (passes_comma .object hgap hkey).trans hmore

end

/-- Any value is skipped over whole. -/
theorem skip_text (w : Wording) (hgap : IsGap gap) (hrest : Ends rest) :
    skip (gap ++ (w.text ++ rest)) = .ok rest := by
  obtain ⟨k, hk, hpasses⟩ := passes w [] hgap hrest
  unfold skip
  rw [hpasses _ (by simp only [List.length_append]; omega)]
  cases (gap ++ (w.text ++ rest)).drop k <;> rfl

end Hosting.Json
