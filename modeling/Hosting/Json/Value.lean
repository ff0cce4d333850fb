import Hosting.Text.Hexadecimal

/-! # JSON values and their written text

    A value as it is written: what the registry stores and what a descriptor is exported
    to. Texts are lists of characters here, because every law about reading them back is
    an induction over characters; `toText` and `toPrettyText` are the strings.

    - `escaped` is the written form of one character of a string;
    - `compact` writes without blanks, `pretty` with two blanks for each level.
-/

namespace Hosting

/-- A value to be written. Numbers are counts: the formats hold no others. -/
inductive Json where
  | null
  | bool (value : Bool)
  | number (value : Nat)
  | text (value : String)
  | array (elements : List Json)
  | object (members : List (String × Json))
deriving Repr, Inhabited

namespace Json

/-- A character inside quotes: the quote, the backslash and the control characters are escaped. -/
def escaped (c : Char) : List Char :=
  if c = '"' then ['\\', '"']
  else if c = '\\' then ['\\', '\\']
  else if 0x20 ≤ c.toNat then [c]
  else if c.toNat = 0x8 then ['\\', 'b']
  else if c.toNat = 0x9 then ['\\', 't']
  else if c.toNat = 0xA then ['\\', 'n']
  else if c.toNat = 0xC then ['\\', 'f']
  else if c.toNat = 0xD then ['\\', 'r']
  else ['\\', 'u', '0', '0', Text.hexDigit (c.toNat / 16), Text.hexDigit (c.toNat % 16)]

/-- The characters of a string, each in its written form. -/
def escapedText (cs : List Char) : List Char :=
  cs.flatMap escaped

/-- A string in quotes. -/
def quoted (s : String) : List Char :=
  '"' :: (escapedText s.toList ++ ['"'])

/-- The words for the two truth values. -/
def boolWord : Bool → List Char
  | true => ['t', 'r', 'u', 'e']
  | false => ['f', 'a', 'l', 's', 'e']

mutual

/-- The text without any blanks, members in the order given. -/
def compact : Json → List Char
  | .null => ['n', 'u', 'l', 'l']
  | .bool b => boolWord b
  | .number n => Nat.toDigits 10 n
  | .text s => quoted s
  | .array elements => '[' :: (compactElements elements ++ [']'])
  | .object members => '\x7b' :: (compactMembers members ++ ['\x7d'])

/-- Elements with commas between them. -/
def compactElements : List Json → List Char
  | [] => []
  | [v] => compact v
  | v :: rest => compact v ++ ',' :: compactElements rest

/-- Members with commas between them. -/
def compactMembers : List (String × Json) → List Char
  | [] => []
  | [(key, v)] => quoted key ++ ':' :: compact v
  | (key, v) :: rest => quoted key ++ ':' :: (compact v ++ ',' :: compactMembers rest)

end

/-- A new line, indented for `depth` levels. -/
def newLine (depth : Nat) : List Char :=
  '\n' :: List.replicate (2 * depth) ' '

mutual

/-- The text with one element or member a line; empty arrays and objects stay on theirs. -/
def pretty (depth : Nat) : Json → List Char
  | .null => ['n', 'u', 'l', 'l']
  | .bool b => boolWord b
  | .number n => Nat.toDigits 10 n
  | .text s => quoted s
  | .array [] => ['[', ']']
  | .array (v :: rest) =>
    '[' :: (newLine (depth + 1) ++ (pretty (depth + 1) v ++
      (prettyElements (depth + 1) rest ++ (newLine depth ++ [']']))))
  | .object [] => ['\x7b', '\x7d']
  | .object ((key, v) :: rest) =>
    '\x7b' :: (newLine (depth + 1) ++ (quoted key ++ ':' :: ' ' :: (pretty (depth + 1) v ++
      (prettyMembers (depth + 1) rest ++ (newLine depth ++ ['\x7d'])))))

/-- The elements after the first, each after a comma and on a line of its own. -/
def prettyElements (depth : Nat) : List Json → List Char
  | [] => []
  | v :: rest => ',' :: (newLine depth ++ (pretty depth v ++ prettyElements depth rest))

/-- The members after the first, each after a comma and on a line of its own. -/
def prettyMembers (depth : Nat) : List (String × Json) → List Char
  | [] => []
  | (key, v) :: rest =>
    ',' :: (newLine depth ++ (quoted key ++ ':' :: ' ' ::
      (pretty depth v ++ prettyMembers depth rest)))

end

/-- The compact text as a string. -/
def toText (v : Json) : String :=
  .ofList v.compact

/-- The indented text as a string. -/
def toPrettyText (v : Json) : String :=
  .ofList (v.pretty 0)

/-- An array of strings. -/
def texts (xs : List String) : Json :=
  .array (xs.map .text)

/-- The value of an optional field: nothing is written as `null`. -/
def optional {α : Type} (write : α → Json) : Option α → Json
  | none => .null
  | some v => write v

end Json

end Hosting
