import Hosting.Proofs.Json.Wordings

/-! # Numbers in any spelling

    The parts of a number are told apart by what they start with, and each run of digits ends
    where no digit follows. So a number is taken off the front whole, whatever it is. It is a
    count if it has digits only and fits; what has a sign, a point or an exponent never is.

    - `numeral_spec`: a number that is read.
    - `skipNumber_text`: a number that is skipped over.
-/

namespace Hosting.Json

variable {cs rest : List Char} {s : Scaled}

/-! ### Runs of digits -/

/-- The text does not go on with a digit. -/
def NoDigit (cs : List Char) : Prop :=
  ∀ c tail, cs = c :: tail → c.isDigit = false

theorem Ends.noDigit (h : Ends rest) : NoDigit rest := by
  rintro c tail rfl
  exact h.not_numeral.1

theorem Digits.exists_cons (ds : Digits) : ∃ c tail, ds.val = c :: tail ∧ c.isDigit = true := by
  obtain ⟨c, tail, hds⟩ := List.exists_cons_of_ne_nil ds.property.1
  exact ⟨c, tail, hds, ds.property.2 c (by simp [hds])⟩

theorem digits_append (ds : Digits) (hrest : NoDigit rest) :
    digits (ds.val ++ rest) = (ds.val, rest) := by
  have hstop : rest.takeWhile Char.isDigit = [] ∧ rest.dropWhile Char.isDigit = rest := by
    cases rest with
    | nil => exact ⟨rfl, rfl⟩
    | cons c tail =>
      have hc : ¬ c.isDigit = true := by simp [hrest c tail rfl]
      exact ⟨List.takeWhile_cons_of_neg hc, List.dropWhile_cons_of_neg hc⟩
  unfold digits
  rw [List.takeWhile_append_of_pos ds.property.2, List.dropWhile_append_of_pos ds.property.2,
    hstop.1, hstop.2, List.append_nil]

theorem someDigits_append (ds : Digits) (hrest : NoDigit rest) :
    someDigits (ds.val ++ rest) = .ok (ds.val, rest) := by
  unfold someDigits
  rw [digits_append ds hrest]
  split
  · next heq => exact absurd (Prod.mk.inj heq).1 ds.property.1
  · next heq => exact absurd (Prod.mk.inj heq).1 ds.property.1
  · rfl

theorem skipDigits_append (ds : Digits) (hrest : NoDigit rest) :
    skipDigits (ds.val ++ rest) = .ok rest := by
  unfold skipDigits
  rw [digits_append ds hrest]
  split
  · next heq => exact absurd (Prod.mk.inj heq).1 ds.property.1
  · next heq => rw [(Prod.mk.inj heq).2]

/-! ### The significand -/

theorem foldl_pushWhole_full (ds : List Char) (h : s.full = true) :
    (ds.foldl Scaled.pushWhole s).full = true := by
  induction ds generalizing s with
  | nil => exact h
  | cons c ds ih =>
    refine ih ?_
    unfold Scaled.pushWhole
    rw [h]
    rfl

/-- The value of some digits behind those of `n`. -/
def decimalFrom (n : Nat) (ds : List Char) : Nat :=
  ds.foldl (fun n c => 10 * n + digit c) n

theorem le_decimalFrom (n : Nat) (ds : List Char) : n ≤ decimalFrom n ds := by
  induction ds generalizing n with
  | nil => exact Nat.le_refl n
  | cons c ds ih =>
    have := ih (10 * n + digit c)
    unfold decimalFrom at this ⊢
    rw [List.foldl_cons]
    omega

/-- The digits are kept as long as they fit, and from then on it is known that they do not. -/
theorem foldl_pushWhole {n : Nat} (hn : n ≤ maxCount) (ds : List Char) :
    if decimalFrom n ds ≤ maxCount then
      ds.foldl Scaled.pushWhole ⟨n, 0, false⟩ = ⟨decimalFrom n ds, 0, false⟩
    else (ds.foldl Scaled.pushWhole ⟨n, 0, false⟩).full = true := by
  induction ds generalizing n with
  | nil =>
    rw [if_pos (show decimalFrom n [] ≤ maxCount from hn)]
    rfl
  | cons c ds ih =>
    have hstep : decimalFrom n (c :: ds) = decimalFrom (n * 10 + digit c) ds := by
      unfold decimalFrom
      rw [List.foldl_cons, Nat.mul_comm]
    rw [hstep, List.foldl_cons]
    by_cases hfits : n * 10 + digit c ≤ maxCount
    · have hpush : Scaled.pushWhole ⟨n, 0, false⟩ c = ⟨n * 10 + digit c, 0, false⟩ := by
        unfold Scaled.pushWhole
        rw [if_neg (by simpa using hfits)]
      rw [hpush]
      exact ih hfits
    · have hpush : (Scaled.pushWhole ⟨n, 0, false⟩ c).full = true := by
        unfold Scaled.pushWhole
        rw [if_pos (by simpa using hfits)]
      have hle := le_decimalFrom (n * 10 + digit c) ds
      rw [if_neg (by omega)]
      exact foldl_pushWhole_full ds hpush

/-! ### Reading a number -/

/-- The number is none that is known, or none at all. -/
def IsOther (found : Except Fault (Numeral × List Char)) (rest : List Char) : Prop :=
  (∃ fault, found = .error fault) ∨ found = .ok (.other, rest)

theorem isOther_checked (s : Scaled) (rest : List Char) : IsOther (checked s rest) rest := by
  unfold checked
  split
  · exact .inl ⟨_, rfl⟩
  · exact .inr rfl

/-- The letter and the sign before the digits of an exponent. -/
theorem exponentDigits_text (e : Exponent) (hrest : NoDigit rest) :
    ∃ negative, exponentDigits (e.signText ++ (e.digits.val ++ rest)) =
      .ok (negative, e.digits.val, rest) := by
  have hdigits := someDigits_append e.digits hrest
  unfold exponentDigits Exponent.signText
  match e.sign with
  | some true =>
    refine ⟨true, ?_⟩
    simp only [List.cons_append, List.nil_append, hdigits]
  | some false =>
    refine ⟨false, ?_⟩
    simp only [List.cons_append, List.nil_append, hdigits]
  | none =>
    refine ⟨false, ?_⟩
    -- a digit is no sign
    obtain ⟨c, ds, hds, hc⟩ := e.digits.exists_cons
    rw [hds, List.cons_append] at hdigits
    rw [hds, List.nil_append, List.cons_append]
    split
    next heq =>
      split at heq
      · next heq' => exact absurd ((List.cons.inj heq').1 ▸ hc) (by decide)
      · next heq' => exact absurd ((List.cons.inj heq').1 ▸ hc) (by decide)
      · obtain ⟨rfl, rfl⟩ := Prod.mk.inj heq
        rw [hdigits]

theorem noDigit_exponent (e? : Option Exponent) (hrest : Ends rest) :
    NoDigit (Exponent.textOf e? ++ rest) := by
  cases e? with
  | none => exact hrest.noDigit
  | some e =>
    rintro c tail heq
    obtain ⟨rfl, -⟩ := List.cons.inj heq
    rcases e.letter_eq with h | h <;> rw [h] <;> decide

theorem isOther_afterFraction (s : Scaled) (e? : Option Exponent) (hrest : Ends rest) :
    IsOther (afterFraction s (Exponent.textOf e? ++ rest)) rest := by
  cases e? with
  | none =>
    rw [Exponent.textOf, List.nil_append]
    cases rest with
    | nil => exact isOther_checked s []
    | cons c tail =>
      obtain ⟨-, -, he, hE⟩ := hrest.not_numeral
      rw [afterFraction, if_neg (by simp [he, hE])]
      exact isOther_checked s _
  | some e =>
    obtain ⟨negative, hdigits⟩ := exponentDigits_text e hrest.noDigit
    rw [Exponent.textOf, List.cons_append, List.append_assoc, afterFraction,
      if_pos (by simpa using e.letter_eq), hdigits]
    exact isOther_checked _ rest

theorem noDigit_tail (n : Number) (hrest : Ends rest) : NoDigit (n.tail ++ rest) := by
  unfold Number.tail
  cases n.fraction with
  | none => exact noDigit_exponent n.exponent hrest
  | some ds =>
    rintro c tail heq
    obtain ⟨rfl, -⟩ := List.cons.inj heq
    rfl

theorem wholeDigits_body (n : Number) (hrest : Ends rest) :
    wholeDigits (n.body ++ rest) = .ok (n.whole.val, n.tail ++ rest) := by
  unfold wholeDigits Number.body
  rw [List.append_assoc, someDigits_append n.whole (noDigit_tail n hrest)]
  split
  · next heq => cases heq
  · next heq =>
    -- a zero that others follow does not stand alone
    have hwhole := (Prod.mk.inj (Except.ok.inj heq)).1
    have halone := n.alone (by rw [hwhole]; rfl)
    rw [hwhole] at halone
    cases halone
  · next heq => exact heq.symm

/-- A number with digits only. -/
theorem unsigned_digits (positive : Bool) {n : Number} (hfraction : n.fraction = none)
    (hexponent : n.exponent = none) (hrest : Ends rest) :
    if positive = true ∧ decimal n.whole.val ≤ maxCount then
      unsigned positive (n.body ++ rest) = .ok (.count (decimal n.whole.val), rest)
    else IsOther (unsigned positive (n.body ++ rest)) rest := by
  have htail : n.tail = [] := by rw [Number.tail, hfraction, hexponent]; rfl
  have hread : unsigned positive (n.body ++ rest) =
      let s := n.whole.val.foldl Scaled.pushWhole ⟨0, 0, false⟩
      if s.full then checked s rest
      else if positive then .ok (.count s.significand, rest) else .ok (.other, rest) := by
    unfold unsigned
    rw [wholeDigits_body n hrest, htail, List.nil_append]
    simp only
    split
    · exact absurd rfl hrest.not_numeral.2.1
    · exact absurd rfl hrest.not_numeral.2.2.1
    · exact absurd rfl hrest.not_numeral.2.2.2
    · rfl
  have hvalue := foldl_pushWhole (n := 0) (by decide) n.whole.val
  rw [hread]
  by_cases hfits : decimal n.whole.val ≤ maxCount
  · rw [if_pos (show decimalFrom 0 n.whole.val ≤ maxCount from hfits)] at hvalue
    simp only [hvalue]
    cases positive with
    | true => exact (if_pos ⟨rfl, hfits⟩).mpr rfl
    | false => exact .inr rfl
  · rw [if_neg (show ¬ decimalFrom 0 n.whole.val ≤ maxCount from hfits)] at hvalue
    simp only [hvalue, if_true]
    rw [if_neg fun h => hfits h.2]
    exact isOther_checked _ rest

/-- A number with a point or an exponent. -/
theorem unsigned_other (positive : Bool) {n : Number}
    (h : n.fraction ≠ none ∨ n.exponent ≠ none) (hrest : Ends rest) :
    IsOther (unsigned positive (n.body ++ rest)) rest := by
  unfold unsigned
  rw [wholeDigits_body n hrest]
  unfold Number.tail
  cases hfraction : n.fraction with
  | some ds =>
    simp only [List.cons_append, List.append_assoc,
      someDigits_append ds (noDigit_exponent n.exponent hrest)]
    exact isOther_afterFraction _ n.exponent hrest
  | none =>
    cases hexponent : n.exponent with
    | none => simp [hfraction, hexponent] at h
    | some e =>
      have hafter (s : Scaled) := isOther_afterFraction s (some e) hrest
      simp only [Exponent.textOf, List.cons_append] at hafter ⊢
      rcases e.letter_eq with h | h
      · rw [h] at hafter ⊢
        exact hafter _
      · rw [h] at hafter ⊢
        exact hafter _

/-- The sign of a number is told by its first character. -/
theorem numeral_text (n : Number) (rest : List Char) :
    numeral (n.text ++ rest) = unsigned (!n.negative) (n.body ++ rest) := by
  unfold Number.text
  cases n.negative with
  | true => rfl
  | false =>
    obtain ⟨c, ds, hds, hc⟩ := n.whole.exists_cons
    simp only [Bool.false_eq_true, if_false, Number.body, hds, List.cons_append]
    unfold numeral
    split
    · next heq => exact absurd ((List.cons.inj heq).1 ▸ hc) (by decide)
    · rfl

/-- A number is a count if it has digits only and they fit. -/
theorem numeral_spec (n : Number) (hrest : Ends rest) :
    match n.count? with
    | some k =>
      if k ≤ maxCount then numeral (n.text ++ rest) = .ok (.count k, rest)
      else IsOther (numeral (n.text ++ rest)) rest
    | none => IsOther (numeral (n.text ++ rest)) rest := by
  rw [numeral_text]
  unfold Number.count?
  cases hfraction : n.fraction with
  | some ds => simpa using unsigned_other (!n.negative) (.inl (by simp [hfraction])) hrest
  | none =>
    cases hexponent : n.exponent with
    | some e => simpa using unsigned_other (!n.negative) (.inr (by simp [hexponent])) hrest
    | none =>
      have hdigits := unsigned_digits (!n.negative) hfraction hexponent hrest
      cases hsign : n.negative with
      | true => simpa [hsign] using hdigits
      | false => simpa [hsign] using hdigits

/-! ### Skipping over a number -/

theorem skipExponent_text (e? : Option Exponent) (hrest : Ends rest) :
    skipExponent (Exponent.textOf e? ++ rest) = .ok rest := by
  cases e? with
  | none =>
    rw [Exponent.textOf, List.nil_append]
    cases rest with
    | nil => rfl
    | cons c tail =>
      obtain ⟨-, -, he, hE⟩ := hrest.not_numeral
      exact if_neg (by simp [he, hE])
  | some e =>
    have hdigits := skipDigits_append e.digits hrest.noDigit
    rw [Exponent.textOf, List.cons_append, List.append_assoc]
    refine (if_pos (by simpa using e.letter_eq)).trans ?_
    rw [Exponent.signText]
    match e.sign with
    | some true => exact hdigits
    | some false => exact hdigits
    | none =>
      obtain ⟨c, ds, hds, hc⟩ := e.digits.exists_cons
      rw [hds] at hdigits ⊢
      rw [List.nil_append, List.cons_append]
      split
      · next heq => exact absurd ((List.cons.inj heq).1 ▸ hc) (by decide)
      · next heq => exact absurd ((List.cons.inj heq).1 ▸ hc) (by decide)
      · exact hdigits

/-- A sign in front does not matter. -/
theorem skipNumber_sign (n : Number) (rest : List Char) :
    skipNumber (n.text ++ rest) =
      match digits (n.body ++ rest) with
      | ([], _) => .error .malformed
      | ('0' :: _ :: _, _) => .error .malformed
      | (_, '.' :: r) =>
        match skipDigits r with
        | .error fault => .error fault
        | .ok r => skipExponent r
      | (_, r) => skipExponent r := by
  unfold Number.text
  cases n.negative with
  | true => rfl
  | false =>
    obtain ⟨c, ds, hds, hc⟩ := n.whole.exists_cons
    have hbody : n.body ++ rest = c :: (ds ++ (n.tail ++ rest)) := by
      rw [Number.body, hds, List.append_assoc, List.cons_append]
    simp only [Bool.false_eq_true, if_false, hbody]
    unfold skipNumber
    split
    · next heq => exact absurd ((List.cons.inj heq).1 ▸ hc) (by decide)
    · rfl

/-- What stands behind the digits of a number is no point where there is no fraction. -/
theorem exponent_ne_point (e? : Option Exponent) (hrest : Ends rest) (r : List Char) :
    Exponent.textOf e? ++ rest ≠ '.' :: r := by
  rintro heq
  cases e? with
  | none =>
    rw [Exponent.textOf, List.nil_append] at heq
    rw [heq] at hrest
    exact hrest.not_numeral.2.1 rfl
  | some e =>
    have hpoint := (List.cons.inj heq).1
    rcases e.letter_eq with h | h <;> rw [h] at hpoint <;> exact absurd hpoint (by decide)

theorem skipNumber_text (n : Number) (hrest : Ends rest) :
    skipNumber (n.text ++ rest) = .ok rest := by
  rw [skipNumber_sign, Number.body, List.append_assoc,
    digits_append n.whole (noDigit_tail n hrest)]
  split
  · next heq => exact absurd (Prod.mk.inj heq).1 n.whole.property.1
  · next heq =>
    have hwhole := (Prod.mk.inj heq).1
    have halone := n.alone (by rw [hwhole]; rfl)
    rw [hwhole] at halone
    cases halone
  · next heq =>
    have htail := (Prod.mk.inj heq).2
    unfold Number.tail at htail
    cases hfraction : n.fraction with
    | none =>
      rw [hfraction] at htail
      exact absurd htail (exponent_ne_point n.exponent hrest _)
    | some ds =>
      rw [hfraction, List.cons_append, List.append_assoc] at htail
      obtain rfl := (List.cons.inj htail).2
      rw [skipDigits_append ds (noDigit_exponent n.exponent hrest)]
      exact skipExponent_text n.exponent hrest
  · next hpoint heq =>
    obtain rfl := (Prod.mk.inj heq).2
    unfold Number.tail at hpoint ⊢
    cases hfraction : n.fraction with
    | none => exact skipExponent_text n.exponent hrest
    | some ds =>
      rw [hfraction] at hpoint
      exact (hpoint _ rfl).elim

end Hosting.Json
