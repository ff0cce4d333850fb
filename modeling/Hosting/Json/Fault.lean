/-! # What is wrong with a JSON text

    A text is read from left to right, and the first problem decides.
-/

namespace Hosting.Json

/-- Why a text was not read. -/
inductive Fault where
  /-- The text breaks the grammar, or goes on after the value. -/
  | malformed
  /-- The text ends inside the value. -/
  | truncated
  /-- Well-formed up to here, but not a value of the wanted kind. -/
  | mistyped
deriving DecidableEq, Repr

/-- The blanks allowed between tokens. -/
def isGap (c : Char) : Bool :=
  c == ' ' || c == '\n' || c == '\t' || c == '\r'

/-- The text after the blanks at its start. -/
def afterGap (cs : List Char) : List Char :=
  cs.dropWhile isGap

/-- Takes the characters of `word` off the front. -/
def word : List Char → List Char → Except Fault (List Char)
  | [], cs => .ok cs
  | _ :: _, [] => .error .truncated
  | w :: ws, c :: cs => if c = w then word ws cs else .error .malformed

end Hosting.Json
