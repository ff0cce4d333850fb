import Hosting.Proofs.Json.Wordings

/-! # The host's own wordings

    The compact and the indented text of a value have the same tokens in the same order. They
    differ in the blanks between the tokens, and a layout says which blanks these are. What is
    written in a layout is one wording of the value, so what holds of every wording holds of the
    texts that the host writes.

    - `Piece.ofChar`, `Number.ofCount`: characters and counts as they are written.
    - `Layout.wording`, `value?_wording`: a value in a layout, and that it stands for the value.
    - `text_tight`, `text_indented`: the two texts that the formats use.
-/

namespace Hosting.Json

/-! ### Characters -/

theorem HexDigit.value_eq {h : HexDigit} {n : Nat} (hn : Text.hexValue h.val = some n) :
    h.value = n := by
  unfold value
  simp [hn]

/-- The digit for a value below sixteen, as it is written. -/
def HexDigit.ofNat (n : Nat) (h : n < 16) : HexDigit :=
  ⟨Text.hexDigit n, by rw [Text.hexValue_hexDigit n h]; rfl⟩

theorem HexDigit.value_ofNat (n : Nat) (h : n < 16) : (ofNat n h).value = n :=
  value_eq (Text.hexValue_hexDigit n h)

/-- A control character as a unit. -/
def CodeUnit.ofControl (n : Nat) (h : n < 0x20) : CodeUnit :=
  ⟨.ofNat 0 (by decide), .ofNat 0 (by decide), .ofNat (n / 16) (by omega), .ofNat (n % 16) (by omega)⟩

theorem CodeUnit.value_ofControl (n : Nat) (h : n < 0x20) : (ofControl n h).value = n := by
  simp only [value, ofControl, HexDigit.value_ofNat]
  omega

namespace Piece

/-- A character as it is written. -/
def ofChar (c : Char) : Piece :=
  if hquote : c = '"' then .short '"' '"' (by decide)
  else if hbackslash : c = '\\' then .short '\\' '\\' (by decide)
  else if hcontrol : 0x20 ≤ c.toNat then .plain c ⟨hquote, hbackslash, hcontrol⟩
  else if c.toNat = 0x8 then .short 'b' (.ofNat 0x8) (by decide)
  else if c.toNat = 0x9 then .short 't' '\t' (by decide)
  else if c.toNat = 0xA then .short 'n' '\n' (by decide)
  else if c.toNat = 0xC then .short 'f' (.ofNat 0xC) (by decide)
  else if c.toNat = 0xD then .short 'r' '\r' (by decide)
  else .unit (.ofControl c.toNat (by omega))

theorem text_ofChar (c : Char) : (ofChar c).text = escaped c := by
  unfold ofChar escaped
  repeat' split
  all_goals rfl

/-- The piece stands for the character, whatever comes after it. -/
theorem decode_ofChar (c : Char) (ps : List Piece) :
    decode (ofChar c :: ps) = (decode ps).map (c :: ·) := by
  have hchar {n : Nat} (h : c.toNat = n) : Char.ofNat n = c := by
    rw [← h, Char.ofNat_toNat]
  -- the cases stand in the order in which the writer tries them
  unfold ofChar
  split
  · next h => rw [h, decode]
  split
  · next h => rw [h, decode]
  split
  · rw [decode]
  split
  · next h => rw [decode, hchar h]
  split
  · next h => rw [decode, ← hchar h]
  split
  · next h => rw [decode, ← hchar h]
  split
  · next h => rw [decode, hchar h]
  split
  · next h => rw [decode, ← hchar h]
  · -- below the surrogates, one unit is the whole character
    have hvalue := CodeUnit.value_ofControl c.toNat (by omega)
    rw [decode.eq_def]
    simp only [CodeUnit.IsLow, CodeUnit.IsHigh, hvalue, Char.ofNat_toNat]
    rw [if_neg (by omega), if_neg (by omega)]

/-- A string as it is written. -/
def ofText (s : String) : List Piece :=
  s.toList.map ofChar

theorem string?_ofText (s : String) : string? (ofText s) = some s := by
  have hdecode (cs : List Char) : decode (cs.map ofChar) = some cs := by
    induction cs with
    | nil => rw [List.map_nil, decode]
    | cons c cs ih => rw [List.map_cons, decode_ofChar, ih, Option.map_some]
  unfold string? ofText
  rw [hdecode, Option.map_some, String.ofList_toList]

theorem quotedText_ofText (s : String) : quotedText (ofText s) = quoted s := by
  have htext : textOf (ofText s) = escapedText s.toList := by
    unfold textOf ofText escapedText
    simp only [List.flatMap_map, text_ofChar]
  unfold quotedText quoted
  rw [htext]

end Piece

/-! ### Counts -/

/-- Only zero is written with a zero in front. -/
theorem toDigits_of_head? (n : Nat) (h : (Nat.toDigits 10 n).head? = some '0') :
    Nat.toDigits 10 n = ['0'] := by
  -- the digits before the last one are those of a smaller count
  induction n using Nat.strongRecOn with
  | ind n ih =>
    by_cases hsmall : n < 10
    · rw [Nat.toDigits_of_lt_base hsmall] at h ⊢
      rw [Option.some.inj h]
    · exfalso
      obtain ⟨c, cs, hcons⟩ :=
        List.exists_cons_of_ne_nil (Nat.toDigits_ne_nil (n := n / 10) (b := 10))
      have hfirst : (Nat.toDigits 10 (n / 10)).head? = some '0' := by
        rw [Nat.toDigits_of_base_le (by omega) (by omega), hcons] at h
        rw [hcons]
        exact h
      have hzero := Nat.ofDigitChars_ten_toDigits (n := n / 10)
      rw [ih (n / 10) (by omega) hfirst] at hzero
      have hnone : Nat.ofDigitChars 10 ['0'] 0 = 0 := rfl
      omega

namespace Number

/-- A count as it is written: in digits only. -/
def ofCount (n : Nat) : Number :=
  ⟨false,
    ⟨Nat.toDigits 10 n, Nat.toDigits_ne_nil,
      fun _ hc => Nat.isDigit_of_mem_toDigits (by omega) (by omega) hc⟩,
    none, none, toDigits_of_head? n⟩

theorem text_ofCount (n : Nat) : (ofCount n).text = Nat.toDigits 10 n :=
  List.append_nil (Nat.toDigits 10 n)

theorem count?_ofCount (n : Nat) : (ofCount n).count? = some n :=
  congrArg some Nat.ofDigitChars_ten_toDigits

end Number

/-! ### Layouts -/

/-- The blanks that a writer puts between tokens. -/
structure Layout where
  /-- Before an element, a member or a closing bracket, by depth. -/
  line : Nat → Gap
  /-- After the colon of a member. -/
  space : Gap

namespace Layout

/-- No blanks. -/
def tight : Layout :=
  ⟨fun _ => .none, .none⟩

theorem isGap_newLine (depth : Nat) : IsGap (newLine depth) := by
  intro c h
  rcases List.mem_cons.1 h with rfl | h
  · rfl
  · rw [List.eq_of_mem_replicate h]
    rfl

/-- A line for each element and member, two blanks further in for each level. -/
def indented : Layout :=
  ⟨fun depth => ⟨newLine depth, isGap_newLine depth⟩, .single⟩

/-- Before the closing bracket. Empty arrays and objects have no blanks inside. -/
def inside (l : Layout) (depth : Nat) (empty : Bool) : Gap :=
  if empty then .none else l.line depth

mutual

/-- A value as it is written. -/
def wording (l : Layout) (depth : Nat) : Json → Wording
  | .null => .null
  | .bool b => .bool b
  | .number n => .number (.ofCount n)
  | .text s => .quoted (Piece.ofText s)
  | .array vs => .array (l.elements (depth + 1) vs) (l.inside depth vs.isEmpty)
  | .object ms => .object (l.members (depth + 1) ms) (l.inside depth ms.isEmpty)

def elements (l : Layout) (depth : Nat) : List Json → List (Element Wording)
  | [] => []
  | v :: rest => ⟨l.line depth, l.wording depth v, .none⟩ :: l.elements depth rest

def members (l : Layout) (depth : Nat) : List (String × Json) → List (Member Wording)
  | [] => []
  | (key, v) :: rest =>
    ⟨l.line depth, Piece.ofText key, .none, l.space, l.wording depth v, .none⟩ ::
      l.members depth rest

end

open Wording

mutual

/-- What is written stands for the value. -/
theorem value?_wording (l : Layout) (depth : Nat) (v : Json) :
    (l.wording depth v).value? = some v := by
  match v with
  | .null => rfl
  | .bool _ => rfl
  | .number n => rw [wording, value?, Number.count?_ofCount, Option.map_some]
  | .text s => rw [wording, value?, Piece.string?_ofText, Option.map_some]
  | .array vs => rw [wording, value?, values?_elements l (depth + 1) vs, Option.map_some]
  | .object ms => rw [wording, value?, pairs?_members l (depth + 1) ms, Option.map_some]

theorem values?_elements (l : Layout) (depth : Nat) (vs : List Json) :
    values? (l.elements depth vs) = some vs := by
  match vs with
  | [] => rfl
  | v :: rest =>
    rw [elements, values?, value?_wording l depth v, values?_elements l depth rest]
    rfl

theorem pairs?_members (l : Layout) (depth : Nat) (ms : List (String × Json)) :
    pairs? (l.members depth ms) = some ms := by
  match ms with
  | [] => rfl
  | (key, v) :: rest =>
    rw [members, pairs?, Piece.string?_ofText, value?_wording l depth v,
      pairs?_members l depth rest]
    rfl

end

/-! ### The two layouts in use -/

mutual

theorem text_tight (depth : Nat) (v : Json) : (tight.wording depth v).text = v.compact := by
  match v with
  | .null => rfl
  | .bool _ => rfl
  | .number n => exact Number.text_ofCount n
  | .text s => exact Piece.quotedText_ofText s
  | .array vs =>
    have hinside : tight.inside depth vs.isEmpty = .none := ite_self _
    rw [wording, Wording.text, compact, elementsText_tight (depth + 1) vs, hinside]
    rfl
  | .object ms =>
    have hinside : tight.inside depth ms.isEmpty = .none := ite_self _
    rw [wording, Wording.text, compact, membersText_tight (depth + 1) ms, hinside]
    rfl

theorem elementsText_tight (depth : Nat) (vs : List Json) :
    elementsText (tight.elements depth vs) = compactElements vs := by
  match vs with
  | [] => rfl
  | [v] =>
    rw [compactElements, ← text_tight depth v]
    exact List.append_nil _
  | v :: w :: rest =>
    -- what comes after a comma is written like a list of its own
    rw [compactElements, ← text_tight depth v, ← elementsText_tight depth (w :: rest)]
    · rfl
    · simp

theorem membersText_tight (depth : Nat) (ms : List (String × Json)) :
    membersText (tight.members depth ms) = compactMembers ms := by
  match ms with
  | [] => rfl
  | [(key, v)] =>
    rw [compactMembers, ← text_tight depth v, ← Piece.quotedText_ofText key]
    simp [members, membersText, moreMembers, tight]
  | (key, v) :: m :: rest =>
    rw [compactMembers, ← text_tight depth v, ← Piece.quotedText_ofText key,
      ← membersText_tight depth (m :: rest)]
    · rfl
    · simp

end

mutual

theorem text_indented (depth : Nat) (v : Json) :
    (indented.wording depth v).text = v.pretty depth := by
  match v with
  | .null => rfl
  | .bool _ => rfl
  | .number n => exact Number.text_ofCount n
  | .text s => exact Piece.quotedText_ofText s
  | .array [] => rfl
  | .array (v :: rest) =>
    rw [pretty, ← text_indented (depth + 1) v, ← moreElements_indented (depth + 1) rest]
    simp [wording, elements, inside, Wording.text, elementsText, indented]
  | .object [] => rfl
  | .object ((key, v) :: rest) =>
    rw [pretty, ← text_indented (depth + 1) v, ← moreMembers_indented (depth + 1) rest,
      ← Piece.quotedText_ofText key]
    simp [wording, members, inside, Wording.text, membersText, indented]

theorem moreElements_indented (depth : Nat) (vs : List Json) :
    moreElements (indented.elements depth vs) = prettyElements depth vs := by
  match vs with
  | [] => rfl
  | v :: rest =>
    rw [prettyElements, ← text_indented depth v, ← moreElements_indented depth rest]
    rfl

theorem moreMembers_indented (depth : Nat) (ms : List (String × Json)) :
    moreMembers (indented.members depth ms) = prettyMembers depth ms := by
  match ms with
  | [] => rfl
  | (key, v) :: rest =>
    rw [prettyMembers, ← text_indented depth v, ← moreMembers_indented depth rest,
      ← Piece.quotedText_ofText key]
    rfl

end

end Layout

end Hosting.Json
