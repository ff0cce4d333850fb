import Hosting.Json.Numeral
import Hosting.Json.Quote

/-! # Skipping over values

    Members that a format does not know are skipped, however deeply they nest. The open
    brackets are kept in a list, so no depth is too great.
-/

namespace Hosting.Json

/-- An open bracket. -/
inductive Bracket where
  | array
  | object
deriving DecidableEq, Repr

/-- What comes next while skipping. -/
inductive Expect where
  /-- A value. -/
  | value
  /-- The key of a member. -/
  | key
  /-- A comma or the closing bracket of the innermost open bracket. -/
  | more
deriving DecidableEq, Repr

/-- Where reading goes on after one token: what is expected, inside which brackets. -/
abbrev SkipState := Expect × List Bracket × List Char

/-- After the start of a bracket: its closing character or its first element. -/
def skipOpen (open' : List Bracket) (bracket : Bracket) (cs : List Char) :
    Except Fault SkipState :=
  match bracket, afterGap cs with
  | _, [] => .error .truncated
  | .array, ']' :: rest => .ok (.more, open', rest)
  | .array, rest => .ok (.value, .array :: open', rest)
  | .object, '\x7d' :: rest => .ok (.more, open', rest)
  | .object, rest => .ok (.key, .object :: open', rest)

/-- One value that is no array or object, or the start of one. -/
def skipValue (open' : List Bracket) (cs : List Char) : Except Fault SkipState :=
  match afterGap cs with
  | [] => .error .truncated
  | 'n' :: r => (word ['u', 'l', 'l'] r).map fun r => (.more, open', r)
  | 't' :: r => (word ['r', 'u', 'e'] r).map fun r => (.more, open', r)
  | 'f' :: r => (word ['a', 'l', 's', 'e'] r).map fun r => (.more, open', r)
  | '"' :: r => (skipString r).map fun r => (.more, open', r)
  | '[' :: r => skipOpen open' .array r
  | '\x7b' :: r => skipOpen open' .object r
  | c :: r =>
    if c = '-' || c.isDigit then (skipNumber (c :: r)).map fun r => (.more, open', r)
    else .error .malformed

/-- A key with its colon. -/
def skipKey (open' : List Bracket) (cs : List Char) : Except Fault SkipState :=
  match afterGap cs with
  | [] => .error .truncated
  | '"' :: r =>
    match skipString r with
    | .error fault => .error fault
    | .ok r =>
      match afterGap r with
      | [] => .error .truncated
      | ':' :: r => .ok (.value, open', r)
      | _ => .error .malformed
  | _ => .error .malformed

/-- A comma or a closing bracket inside `bracket`. -/
def skipMore (bracket : Bracket) (open' : List Bracket) (cs : List Char) :
    Except Fault SkipState :=
  match bracket, afterGap cs with
  | _, [] => .error .truncated
  | .array, ',' :: r => .ok (.value, .array :: open', r)
  | .array, ']' :: r => .ok (.more, open', r)
  | .object, ',' :: r => .ok (.key, .object :: open', r)
  | .object, '\x7d' :: r => .ok (.more, open', r)
  | _, _ => .error .malformed

/-- Skips in at most as many tokens as `budget` has characters. Nothing is left open at the end. -/
def skipSteps : (budget : List Char) → SkipState → Except Fault (List Char)
  | _, (.more, [], cs) => .ok cs
  | [], _ => .error .truncated
  | _ :: budget, (.more, bracket :: open', cs) =>
    match skipMore bracket open' cs with
    | .error fault => .error fault
    | .ok next => skipSteps budget next
  | _ :: budget, (.value, open', cs) =>
    match skipValue open' cs with
    | .error fault => .error fault
    | .ok next => skipSteps budget next
  | _ :: budget, (.key, open', cs) =>
    match skipKey open' cs with
    | .error fault => .error fault
    | .ok next => skipSteps budget next

/-- The text after one value. Every token takes a character at least, so the text itself is budget
    enough. -/
def skip (cs : List Char) : Except Fault (List Char) :=
  skipSteps cs (.value, [], cs)

end Hosting.Json
