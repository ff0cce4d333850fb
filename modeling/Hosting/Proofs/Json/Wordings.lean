import Hosting.Json.Numeral
import Hosting.Json.Quote
import Hosting.Json.Value
import Hosting.Proofs.Json.Punctuation

/-! # Wordings of values

    The grammar of JSON leaves much open about the text of one value: the blanks between the
    tokens, the escapes in a string, the case of a hexadecimal digit, a fraction or an exponent
    behind a number. A wording is a text with all these choices made, so the wordings of a value
    are all the texts that stand for it, and every text of the grammar is one of a wording.

    - `Wording`: the texts of the grammar, nested to any depth.
    - `Wording.text`: the characters.
    - `Wording.value?`: the value, if all its numbers are counts and all its strings are texts.
    - `Piece.decode`: the characters that a quoted string stands for. Half a surrogate pair
      stands for none.
-/

namespace Hosting.Json

/-- Blanks between two tokens. -/
abbrev Gap := {cs : List Char // IsGap cs}

/-- No blanks. -/
def Gap.none : Gap :=
  ⟨[], by decide⟩

/-- One blank. -/
def Gap.single : Gap :=
  ⟨[' '], by decide⟩

@[simp] theorem Gap.val_none : none.val = [] := rfl

@[simp] theorem Gap.val_single : single.val = [' '] := rfl

/-! ### Numbers -/

/-- One decimal digit or more. -/
abbrev Digits := {ds : List Char // ds ≠ [] ∧ ∀ c ∈ ds, c.isDigit = true}

/-- The exponent of a number. -/
structure Exponent where
  letter : Char
  /-- A minus, a plus or neither. -/
  sign : Option Bool
  digits : Digits
  letter_eq : letter = 'e' ∨ letter = 'E'

/-- A number. A zero stands alone before the point. -/
structure Number where
  negative : Bool
  whole : Digits
  fraction : Option Digits
  exponent : Option Exponent
  alone : whole.val.head? = some '0' → whole.val = ['0']

def Exponent.signText (e : Exponent) : List Char :=
  match e.sign with
  | none => []
  | some true => ['-']
  | some false => ['+']

/-- The end of a number that may have an exponent. -/
def Exponent.textOf : Option Exponent → List Char
  | none => []
  | some e => e.letter :: (e.signText ++ e.digits.val)

namespace Number

/-- What follows the digits before the point. -/
def tail (n : Number) : List Char :=
  match n.fraction with
  | none => Exponent.textOf n.exponent
  | some ds => '.' :: (ds.val ++ Exponent.textOf n.exponent)

/-- The number without its sign. -/
def body (n : Number) : List Char :=
  n.whole.val ++ n.tail

def text (n : Number) : List Char :=
  if n.negative then '-' :: n.body else n.body

/-- The count that the number is: it has digits only. -/
def count? (n : Number) : Option Nat :=
  match n.negative, n.fraction, n.exponent with
  | false, none, none => some (decimal n.whole.val)
  | _, _, _ => none

end Number

/-! ### Strings -/

/-- A hexadecimal digit, in either case. -/
abbrev HexDigit := {c : Char // (Text.hexValue c).isSome = true}

def HexDigit.value (h : HexDigit) : Nat :=
  (Text.hexValue h.val).get h.property

/-- One unit of UTF-16. -/
structure CodeUnit where
  first : HexDigit
  second : HexDigit
  third : HexDigit
  fourth : HexDigit

namespace CodeUnit

def text (u : CodeUnit) : List Char :=
  [u.first.val, u.second.val, u.third.val, u.fourth.val]

def value (u : CodeUnit) : Nat :=
  ((u.first.value * 16 + u.second.value) * 16 + u.third.value) * 16 + u.fourth.value

/-- The first half of a pair. -/
def IsHigh (u : CodeUnit) : Prop :=
  0xD800 ≤ u.value ∧ u.value ≤ 0xDBFF

/-- The second half of a pair. -/
def IsLow (u : CodeUnit) : Prop :=
  0xDC00 ≤ u.value ∧ u.value ≤ 0xDFFF

instance (u : CodeUnit) : Decidable u.IsHigh :=
  inferInstanceAs (Decidable (_ ∧ _))

instance (u : CodeUnit) : Decidable u.IsLow :=
  inferInstanceAs (Decidable (_ ∧ _))

/-- The character that a pair stands for. -/
def paired (high low : CodeUnit) : Char :=
  .ofNat (0x10000 + (high.value - 0xD800) * 0x400 + (low.value - 0xDC00))

end CodeUnit

/-- The letters behind a backslash, and what they stand for. -/
def shortForms : List (Char × Char) :=
  [('"', '"'), ('\\', '\\'), ('/', '/'), ('b', .ofNat 0x8), ('f', .ofNat 0xC), ('n', '\n'),
    ('r', '\r'), ('t', '\t')]

/-- A piece of a quoted string. -/
inductive Piece where
  /-- A character that stands for itself. -/
  | plain (c : Char) (h : c ≠ '"' ∧ c ≠ '\\' ∧ 0x20 ≤ c.toNat)
  | short (letter c : Char) (h : (letter, c) ∈ shortForms)
  | unit (u : CodeUnit)

namespace Piece

def text : Piece → List Char
  | .plain c _ => [c]
  | .short letter _ _ => ['\\', letter]
  | .unit u => '\\' :: 'u' :: u.text

/-- The text of some pieces in a row. -/
def textOf (ps : List Piece) : List Char :=
  ps.flatMap text

/-- The characters that the pieces stand for: a pair of units is one of them. -/
def decode : List Piece → Option (List Char)
  | [] => some []
  | .plain c _ :: rest => (decode rest).map (c :: ·)
  | .short _ c _ :: rest => (decode rest).map (c :: ·)
  | .unit u :: rest =>
    if u.IsLow then none
    else if u.IsHigh then
      match rest with
      | .unit v :: rest => if v.IsLow then (decode rest).map (u.paired v :: ·) else none
      | _ => none
    else (decode rest).map (.ofNat u.value :: ·)

/-- The string that the pieces stand for. -/
def string? (ps : List Piece) : Option String :=
  (decode ps).map .ofList

/-- The pieces in quotes. -/
def quotedText (ps : List Piece) : List Char :=
  '"' :: (textOf ps ++ ['"'])

end Piece

theorem quotedText_append (ps : List Piece) (rest : List Char) :
    Piece.quotedText ps ++ rest = '"' :: (Piece.textOf ps ++ '"' :: rest) := by
  simp [Piece.quotedText]

/-! ### Values -/

/-- An element of an array, with the blanks around it. -/
structure Element (V : Type) where
  before : Gap
  value : V
  after : Gap

/-- A member of an object, with the blanks around its key and its value. -/
structure Member (V : Type) where
  before : Gap
  key : List Piece
  afterKey : Gap
  beforeValue : Gap
  value : V
  after : Gap

/-- The string that the key stands for. -/
def Member.name? {V : Type} (m : Member V) : Option String :=
  Piece.string? m.key

/-- A text of the grammar. What is inside the brackets ends with blanks of its own, so that there
    may be some where nothing else is. -/
inductive Wording where
  | null
  | bool (b : Bool)
  | number (n : Number)
  | quoted (pieces : List Piece)
  | array (elements : List (Element Wording)) (inside : Gap)
  | object (members : List (Member Wording)) (inside : Gap)

namespace Wording

mutual

def text : Wording → List Char
  | .null => ['n', 'u', 'l', 'l']
  | .bool b => boolWord b
  | .number n => n.text
  | .quoted pieces => Piece.quotedText pieces
  | .array elements inside => '[' :: (elementsText elements ++ (inside.val ++ [']']))
  | .object members inside => '\x7b' :: (membersText members ++ (inside.val ++ ['\x7d']))

/-- Elements with commas between them. -/
def elementsText : List (Element Wording) → List Char
  | [] => []
  | ⟨before, v, after⟩ :: rest => before.val ++ (v.text ++ (after.val ++ moreElements rest))

/-- The elements after the first, each after a comma. -/
def moreElements : List (Element Wording) → List Char
  | [] => []
  | ⟨before, v, after⟩ :: rest =>
    ',' :: (before.val ++ (v.text ++ (after.val ++ moreElements rest)))

/-- Members with commas between them. -/
def membersText : List (Member Wording) → List Char
  | [] => []
  | ⟨before, key, afterKey, beforeValue, v, after⟩ :: rest =>
    before.val ++ (Piece.quotedText key ++ (afterKey.val ++ ':' :: (beforeValue.val ++
      (v.text ++ (after.val ++ moreMembers rest)))))

/-- The members after the first, each after a comma. -/
def moreMembers : List (Member Wording) → List Char
  | [] => []
  | ⟨before, key, afterKey, beforeValue, v, after⟩ :: rest =>
    ',' :: (before.val ++ (Piece.quotedText key ++ (afterKey.val ++ ':' :: (beforeValue.val ++
      (v.text ++ (after.val ++ moreMembers rest))))))

end

theorem text_array_append (es : List (Element Wording)) (inside : Gap) (rest : List Char) :
    (array es inside).text ++ rest =
      '[' :: (elementsText es ++ (inside.val ++ ']' :: rest)) := by
  simp [text]

theorem text_object_append (ms : List (Member Wording)) (inside : Gap) (rest : List Char) :
    (object ms inside).text ++ rest =
      '\x7b' :: (membersText ms ++ (inside.val ++ '\x7d' :: rest)) := by
  simp [text]

mutual

/-- The value that the text stands for. -/
def value? : Wording → Option Json
  | .null => some .null
  | .bool b => some (.bool b)
  | .number n => n.count?.map .number
  | .quoted pieces => (Piece.string? pieces).map .text
  | .array elements _ => (values? elements).map .array
  | .object members _ => (pairs? members).map .object

/-- The values of elements. -/
def values? : List (Element Wording) → Option (List Json)
  | [] => some []
  | ⟨_, v, _⟩ :: rest => v.value?.bind fun v => (values? rest).map (v :: ·)

/-- The names of members with their values. -/
def pairs? : List (Member Wording) → Option (List (String × Json))
  | [] => some []
  | ⟨_, key, _, _, v, _⟩ :: rest =>
    (Piece.string? key).bind fun name => v.value?.bind fun v => (pairs? rest).map ((name, v) :: ·)

end

theorem eq_nil_of_values? {es : List (Element Wording)} (h : values? es = some []) : es = [] := by
  cases es with
  | nil => rfl
  | cons e es =>
    obtain ⟨j, -, h⟩ := Option.bind_eq_some_iff.1 h
    obtain ⟨js, -, h⟩ := Option.map_eq_some_iff.1 h
    cases h

/-- The first value is that of the first element. -/
theorem exists_of_values? {es : List (Element Wording)} {j : Json} {js : List Json}
    (h : values? es = some (j :: js)) :
    ∃ e rest, es = e :: rest ∧ e.value.value? = some j ∧ values? rest = some js := by
  cases es with
  | nil => cases h
  | cons e rest =>
    obtain ⟨k, hk, h⟩ := Option.bind_eq_some_iff.1 h
    obtain ⟨ks, hks, h⟩ := Option.map_eq_some_iff.1 h
    obtain ⟨rfl, rfl⟩ := List.cons.inj h
    exact ⟨e, rest, rfl, hk, hks⟩

theorem eq_nil_of_pairs? {ms : List (Member Wording)} (h : pairs? ms = some []) : ms = [] := by
  cases ms with
  | nil => rfl
  | cons m ms =>
    obtain ⟨key, -, h⟩ := Option.bind_eq_some_iff.1 h
    obtain ⟨j, -, h⟩ := Option.bind_eq_some_iff.1 h
    obtain ⟨pairs, -, h⟩ := Option.map_eq_some_iff.1 h
    cases h

/-- The first name and value are those of the first member. -/
theorem exists_of_pairs? {ms : List (Member Wording)} {name : String} {j : Json}
    {pairs : List (String × Json)} (h : pairs? ms = some ((name, j) :: pairs)) :
    ∃ m rest, ms = m :: rest ∧ m.name? = some name ∧ m.value.value? = some j ∧
      pairs? rest = some pairs := by
  cases ms with
  | nil => cases h
  | cons m rest =>
    obtain ⟨key, hkey, h⟩ := Option.bind_eq_some_iff.1 h
    obtain ⟨k, hk, h⟩ := Option.bind_eq_some_iff.1 h
    obtain ⟨others, hothers, h⟩ := Option.map_eq_some_iff.1 h
    obtain ⟨hpair, rfl⟩ := List.cons.inj h
    obtain ⟨rfl, rfl⟩ := Prod.mk.inj hpair
    exact ⟨m, rest, rfl, hkey, hk, hothers⟩

theorem names_of_pairs? {ms : List (Member Wording)} {pairs : List (String × Json)}
    (h : pairs? ms = some pairs) : ms.map Member.name? = (pairs.map (·.1)).map some := by
  induction pairs generalizing ms with
  | nil =>
    rw [eq_nil_of_pairs? h]
    rfl
  | cons p pairs ih =>
    obtain ⟨m, rest, rfl, hname, -, hrest⟩ := exists_of_pairs? h
    rw [List.map_cons, List.map_cons, List.map_cons, hname, ih hrest]

theorem mem_of_pairs? {ms : List (Member Wording)} {pairs : List (String × Json)}
    (h : pairs? ms = some pairs) {m : Member Wording} (hm : m ∈ ms) :
    ∃ p ∈ pairs, m.name? = some p.1 ∧ m.value.value? = some p.2 := by
  induction pairs generalizing ms with
  | nil =>
    rw [eq_nil_of_pairs? h] at hm
    cases hm
  | cons p pairs ih =>
    obtain ⟨m', rest, rfl, hname, hvalue, hrest⟩ := exists_of_pairs? h
    rcases List.mem_cons.1 hm with rfl | hm
    · exact ⟨p, .head _, hname, hvalue⟩
    · obtain ⟨p', hp', hfound⟩ := ih hrest hm
      exact ⟨p', .tail _ hp', hfound⟩

end Wording

end Hosting.Json
