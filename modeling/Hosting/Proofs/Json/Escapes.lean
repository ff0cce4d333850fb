import Hosting.Proofs.Json.Wordings

/-! # Strings in any spelling

    A character of a string can stand for itself, be escaped by a letter, or be given by one or
    two units of UTF-16. The reader takes a pair of units in one step, so it keeps time with
    `Piece.decode`, and it fails where that finds half a pair. A string that is only skipped
    over may have any units.

    - `stringSteps_pieces`: the steps of the reader, by the cases of `Piece.decode`.
    - `string_pieces`: a whole string, read.
    - `skipString_pieces`: a whole string, skipped over.
-/

namespace Hosting.Json

variable {u v : CodeUnit} {ps : List Piece} {budget cs rest : List Char}

/-! ### Units -/

theorem fourBytesLeft_cons (a b c d : Char) (cs : List Char) :
    fourBytesLeft (a :: b :: c :: d :: cs) = true := by
  have ha := Char.utf8Size_pos a
  have hb := Char.utf8Size_pos b
  have hc := Char.utf8Size_pos c
  have hd := Char.utf8Size_pos d
  apply decide_eq_true
  simp only [List.take_succ_cons, List.take_zero, List.foldl_cons, List.foldl_nil]
  omega

theorem HexDigit.hexValue_eq (h : HexDigit) : Text.hexValue h.val = some h.value :=
  (Option.some_get h.property).symm

theorem hexUnit_text (u : CodeUnit) (cs : List Char) :
    hexUnit (u.text ++ cs) = .ok (u.value, cs) := by
  unfold hexUnit CodeUnit.text
  simp only [List.cons_append, List.nil_append, fourBytesLeft_cons, Bool.not_true,
    Bool.false_eq_true, if_false, HexDigit.hexValue_eq]
  rfl

theorem escape_text (u : CodeUnit) (cs : List Char) :
    escape ('u' :: (u.text ++ cs)) =
      if u.IsLow then .error .malformed
      else if u.IsHigh then
        match secondUnit cs with
        | .error fault => .error fault
        | .ok (n, rest) =>
          if 0xDC00 ≤ n ∧ n ≤ 0xDFFF then
            .ok (.ofNat (0x10000 + (u.value - 0xD800) * 0x400 + (n - 0xDC00)), rest)
          else .error .malformed
      else .ok (.ofNat u.value, cs) := by
  show unicodeEscape _ = _
  rw [unicodeEscape, hexUnit_text]
  rfl

/-- The first half of a pair needs the second right behind it. -/
theorem escape_high (hlow : ¬ u.IsLow) (hhigh : u.IsHigh) (cs : List Char) :
    escape ('u' :: (u.text ++ '\\' :: 'u' :: (v.text ++ cs))) =
      if v.IsLow then .ok (u.paired v, cs) else .error .malformed := by
  rw [escape_text, if_neg hlow, if_pos hhigh, secondUnit, hexUnit_text]
  rfl

/-- A string goes on with a unit, or what stands there is no second half of a pair. -/
theorem secondUnit_pieces (ps : List Piece) (rest : List Char)
    (hnone : ∀ v ps', ps ≠ .unit v :: ps') :
    secondUnit (Piece.textOf ps ++ '"' :: rest) = .error .malformed := by
  have hother {c : Char} {tail : List Char} (hc : c ≠ '\\') :
      secondUnit (c :: tail) = .error .malformed := by
    unfold secondUnit
    split <;> simp_all
  cases ps with
  | nil => exact hother (by decide)
  | cons p ps =>
    cases p with
    | plain c h => exact hother h.2.1
    | short letter c h =>
      have hletter : letter ≠ 'u' := by
        rintro rfl
        simp [shortForms] at h
      show secondUnit ('\\' :: letter :: (Piece.textOf ps ++ '"' :: rest)) = _
      unfold secondUnit
      split <;> simp_all
    | unit v => exact absurd rfl (hnone v ps)

theorem shortEscape_of_mem {letter c : Char} (h : (letter, c) ∈ shortForms) :
    shortEscape letter = some c := by
  have hall : ∀ form ∈ shortForms, shortEscape form.1 = some form.2 := by decide
  exact hall _ h

theorem escape_short {letter c : Char} (h : (letter, c) ∈ shortForms) (cs : List Char) :
    escape (letter :: cs) = .ok (c, cs) := by
  have hletter : letter ≠ 'u' := by
    rintro rfl
    simp [shortForms] at h
  unfold escape
  split
  · next heq => cases heq
  · next heq => exact absurd (List.cons.inj heq).1 hletter
  · next heq =>
    obtain ⟨rfl, rfl⟩ := List.cons.inj heq
    rw [shortEscape_of_mem h]

/-! ### Steps -/

theorem toOption_map {ε α β : Type} (x : Except ε α) (f : α → β) :
    (x.map f).toOption = x.toOption.map f := by
  cases x <;> rfl

theorem toOption_bind {ε α β : Type} (x : Except ε α) (f : α → Except ε β) :
    (x.bind f).toOption = x.toOption.bind fun v => (f v).toOption := by
  cases x <;> rfl

/-- A step over a backslash and the escape behind it. -/
theorem stringSteps_backslash {b c : Char} (h : escape cs = .ok (c, rest)) :
    stringSteps (b :: budget) ('\\' :: cs) =
      (stringSteps budget rest).map fun (ds, rest) => (c :: ds, rest) := by
  rw [stringSteps, if_neg (by decide), if_pos rfl]
  simp only [h]
  cases stringSteps budget rest <;> rfl

theorem stringSteps_fault {b : Char} {fault : Fault} (h : escape cs = .error fault) :
    stringSteps (b :: budget) ('\\' :: cs) = .error fault := by
  rw [stringSteps, if_neg (by decide), if_pos rfl]
  simp only [h]

/-- A step over a character that stands for itself. -/
theorem stringSteps_plain {b c : Char} (hquote : c ≠ '"') (hbackslash : c ≠ '\\')
    (hcontrol : 0x20 ≤ c.toNat) :
    stringSteps (b :: budget) (c :: cs) =
      (stringSteps budget cs).map fun (ds, rest) => (c :: ds, rest) := by
  rw [stringSteps, if_neg hquote, if_neg hbackslash, if_neg (by omega)]
  cases stringSteps budget cs <;> rfl

theorem textOf_plain (c : Char) (h) (ps : List Piece) (cs : List Char) :
    Piece.textOf (.plain c h :: ps) ++ cs = c :: (Piece.textOf ps ++ cs) := rfl

theorem textOf_short (letter c : Char) (h) (ps : List Piece) (cs : List Char) :
    Piece.textOf (.short letter c h :: ps) ++ cs = '\\' :: letter :: (Piece.textOf ps ++ cs) := rfl

theorem textOf_unit (u : CodeUnit) (ps : List Piece) (cs : List Char) :
    Piece.textOf (.unit u :: ps) ++ cs = '\\' :: 'u' :: (u.text ++ (Piece.textOf ps ++ cs)) := rfl

theorem length_textOf_cons (p : Piece) (ps : List Piece) :
    (Piece.textOf ps).length < (Piece.textOf (p :: ps)).length := by
  have hpiece : 0 < p.text.length := by
    cases p <;> exact Nat.succ_pos _
  simp only [Piece.textOf, List.flatMap_cons, List.length_append]
  omega

/-- What the pieces stand for, where the first is a unit. -/
theorem decode_unit (u : CodeUnit) (ps : List Piece) :
    Piece.decode (.unit u :: ps) =
      if u.IsLow then none
      else if u.IsHigh then
        match ps with
        | .unit v :: rest => if v.IsLow then (Piece.decode rest).map (u.paired v :: ·) else none
        | _ => none
      else (Piece.decode ps).map (.ofNat u.value :: ·) := by
  exact Piece.decode.eq_def _

/-- The steps of the reader find what the pieces stand for, up to the closing quote. -/
theorem stringSteps_pieces (ps : List Piece) (rest : List Char)
    (h : (Piece.textOf ps).length < budget.length) :
    (stringSteps budget (Piece.textOf ps ++ '"' :: rest)).toOption =
      (Piece.decode ps).map (·, rest) := by
  -- each piece takes one step, and a pair of units takes one as well
  induction ps using Piece.decode.induct generalizing budget <;>
    obtain ⟨b, budget, rfl⟩ := List.exists_cons_of_length_pos (Nat.zero_lt_of_lt h)
  case case1 => rfl
  case case2 c hc ps ih =>
    have hshorter := length_textOf_cons (.plain c hc) ps
    rw [List.length_cons] at h
    rw [textOf_plain, Piece.decode, stringSteps_plain hc.1 hc.2.1 hc.2.2, toOption_map,
      ih (by omega)]
    simp [Function.comp_def]
  case case3 letter c hform ps ih =>
    have hshorter := length_textOf_cons (.short letter c hform) ps
    rw [List.length_cons] at h
    rw [textOf_short, Piece.decode, stringSteps_backslash (escape_short hform _), toOption_map,
      ih (by omega)]
    simp [Function.comp_def]
  case case4 u ps hlow =>
    rw [textOf_unit, decode_unit, if_pos hlow,
      stringSteps_fault (by rw [escape_text, if_pos hlow])]
    rfl
  case case5 u hlow hhigh v ps hv ih =>
    have hshorter := length_textOf_cons (.unit v) ps
    have hshort := length_textOf_cons (.unit u) (.unit v :: ps)
    rw [List.length_cons] at h
    rw [textOf_unit, textOf_unit, decode_unit, if_neg hlow, if_pos hhigh,
      stringSteps_backslash (by rw [escape_high hlow hhigh, if_pos hv]), toOption_map,
      ih (by omega)]
    simp [Function.comp_def, hv]
  case case6 u hlow hhigh v ps hv =>
    rw [textOf_unit, textOf_unit, decode_unit, if_neg hlow, if_pos hhigh,
      stringSteps_fault (by rw [escape_high hlow hhigh, if_neg hv])]
    simp [hv, Except.toOption]
  case case7 u ps hlow hhigh hother =>
    have halone : escape ('u' :: (u.text ++ (Piece.textOf ps ++ '"' :: rest))) =
        .error .malformed := by
      rw [escape_text, if_neg hlow, if_pos hhigh, secondUnit_pieces ps rest hother]
    rw [textOf_unit, decode_unit, if_neg hlow, if_pos hhigh, stringSteps_fault halone]
    split
    · exact (hother _ _ rfl).elim
    · rfl
  case case8 u ps hlow hhigh ih =>
    have hshorter := length_textOf_cons (.unit u) ps
    rw [List.length_cons] at h
    rw [textOf_unit, decode_unit, if_neg hlow, if_neg hhigh,
      stringSteps_backslash (by rw [escape_text, if_neg hlow, if_neg hhigh]), toOption_map,
      ih (by omega)]
    simp [Function.comp_def]

/-- A quoted string is read as what its pieces stand for. -/
theorem string_pieces (ps : List Piece) (rest : List Char) :
    (string (Piece.textOf ps ++ '"' :: rest)).toOption = (Piece.string? ps).map (·, rest) := by
  have hread : (stringSteps (Piece.textOf ps ++ '"' :: rest)
      (Piece.textOf ps ++ '"' :: rest)).toOption = (Piece.decode ps).map (·, rest) :=
    stringSteps_pieces ps rest (by simp)
  have hstring (cs : List Char) :
      string cs = (stringSteps cs cs).map fun found => (.ofList found.1, found.2) := by
    unfold string
    cases stringSteps cs cs <;> rfl
  rw [hstring, toOption_map, hread]
  simp [Piece.string?, Function.comp_def]

/-! ### Skipping over a string -/

theorem skipEscape_short {letter c : Char} (h : (letter, c) ∈ shortForms) (cs : List Char) :
    skipEscape (letter :: cs) = .ok cs := by
  unfold skipEscape
  split
  · next heq => cases heq
  · next heq =>
    obtain ⟨rfl, -⟩ := List.cons.inj heq
    simp [shortForms] at h
  · next heq =>
    obtain ⟨rfl, rfl⟩ := List.cons.inj heq
    rw [shortEscape_of_mem h]
    rfl

theorem skipEscape_unit (u : CodeUnit) (cs : List Char) :
    skipEscape ('u' :: (u.text ++ cs)) = .ok cs := by
  show (hexUnit _).map _ = _
  rw [hexUnit_text]
  rfl

/-- Pieces of any kind are passed over, one by one. -/
theorem skipStringSteps_pieces (ps : List Piece) (rest : List Char)
    (h : (Piece.textOf ps).length < budget.length) :
    skipStringSteps budget (Piece.textOf ps ++ '"' :: rest) = .ok rest := by
  induction ps generalizing budget with
  | nil =>
    obtain ⟨b, budget, rfl⟩ := List.exists_cons_of_length_pos (Nat.zero_lt_of_lt h)
    rfl
  | cons p ps ih =>
    obtain ⟨b, budget, rfl⟩ := List.exists_cons_of_length_pos (Nat.zero_lt_of_lt h)
    have hshorter := length_textOf_cons p ps
    rw [List.length_cons] at h
    have hrest : skipStringSteps budget (Piece.textOf ps ++ '"' :: rest) = .ok rest :=
      ih (by omega)
    cases p with
    | plain c hc =>
      rw [textOf_plain, skipStringSteps, if_neg hc.1, if_neg hc.2.1, if_neg (by omega), hrest]
    | short letter c hform =>
      rw [textOf_short, skipStringSteps, if_neg (by decide), if_pos rfl,
        skipEscape_short hform]
      exact hrest
    | unit u =>
      rw [textOf_unit, skipStringSteps, if_neg (by decide), if_pos rfl, skipEscape_unit]
      exact hrest

theorem skipString_pieces (ps : List Piece) (rest : List Char) :
    skipString (Piece.textOf ps ++ '"' :: rest) = .ok rest :=
  skipStringSteps_pieces ps rest (by simp)

end Hosting.Json
