import Hosting.Json.Fault
import Hosting.Text.Hexadecimal

/-! # Strings in JSON text

    A string is read after its opening quote. Four hexadecimal digits after `\u` are one
    unit of UTF-16, and a character beyond the first plane takes a pair of them; half a
    pair is refused. A string that is only skipped over may hold any units.
-/

namespace Hosting.Json

/-- At least four bytes are left in UTF-8. -/
def fourBytesLeft (cs : List Char) : Bool :=
  4 ≤ (cs.take 4).foldl (fun n c => n + c.utf8Size) 0

/-- Four hexadecimal digits. -/
def hexUnit (cs : List Char) : Except Fault (Nat × List Char) :=
  if !fourBytesLeft cs then .error .truncated
  else
    match cs with
    | a :: b :: c :: d :: rest =>
      match Text.hexValue a, Text.hexValue b, Text.hexValue c, Text.hexValue d with
      | some a, some b, some c, some d => .ok (((a * 16 + b) * 16 + c) * 16 + d, rest)
      | _, _, _, _ => .error .malformed
    | _ => .error .malformed

/-- The second unit of a pair, with the `\u` before it. -/
def secondUnit : List Char → Except Fault (Nat × List Char)
  | [] => .error .truncated
  | ['\\'] => .error .truncated
  | '\\' :: 'u' :: rest => hexUnit rest
  | _ => .error .malformed

/-- The character after `\u`. -/
def unicodeEscape (cs : List Char) : Except Fault (Char × List Char) :=
  match hexUnit cs with
  | .error fault => .error fault
  | .ok (n, rest) =>
    if 0xDC00 ≤ n ∧ n ≤ 0xDFFF then .error .malformed
    else if 0xD800 ≤ n ∧ n ≤ 0xDBFF then
      match secondUnit rest with
      | .error fault => .error fault
      | .ok (m, rest) =>
        if 0xDC00 ≤ m ∧ m ≤ 0xDFFF then
          .ok (.ofNat (0x10000 + (n - 0xD800) * 0x400 + (m - 0xDC00)), rest)
        else .error .malformed
    else .ok (.ofNat n, rest)

/-- The character that a single letter after the backslash stands for. -/
def shortEscape (c : Char) : Option Char :=
  if c = '"' || c = '\\' || c = '/' then some c
  else if c = 'b' then some (.ofNat 0x8)
  else if c = 'f' then some (.ofNat 0xC)
  else if c = 'n' then some '\n'
  else if c = 'r' then some '\r'
  else if c = 't' then some '\t'
  else none

/-- The character after a backslash. -/
def escape : List Char → Except Fault (Char × List Char)
  | [] => .error .truncated
  | 'u' :: cs => unicodeEscape cs
  | c :: cs =>
    match shortEscape c with
    | some d => .ok (d, cs)
    | none => .error .malformed

/-- The characters up to the closing quote, in at most as many steps as `budget` has characters. -/
def stringSteps : (budget : List Char) → List Char → Except Fault (List Char × List Char)
  | [], _ => .error .truncated
  | _ :: _, [] => .error .truncated
  | _ :: budget, c :: cs =>
    if c = '"' then .ok ([], cs)
    else if c = '\\' then
      match escape cs with
      | .error fault => .error fault
      | .ok (d, rest) =>
        match stringSteps budget rest with
        | .error fault => .error fault
        | .ok (ds, rest) => .ok (d :: ds, rest)
    else if c.toNat < 0x20 then .error .malformed
    else
      match stringSteps budget cs with
      | .error fault => .error fault
      | .ok (ds, rest) => .ok (c :: ds, rest)

/-- A string after its opening quote. Every step takes a character at least, so the text itself is
    budget enough. -/
def string (cs : List Char) : Except Fault (String × List Char) :=
  match stringSteps cs cs with
  | .error fault => .error fault
  | .ok (ds, rest) => .ok (.ofList ds, rest)

/-! ### Skipping over a string -/

/-- What follows a backslash in a string that is skipped over. -/
def skipEscape : List Char → Except Fault (List Char)
  | [] => .error .truncated
  | 'u' :: cs => (hexUnit cs).map (·.2)
  | c :: cs => if (shortEscape c).isSome then .ok cs else .error .malformed

/-- The text after the closing quote, in at most as many steps as `budget` has characters. -/
def skipStringSteps : (budget : List Char) → List Char → Except Fault (List Char)
  | [], _ => .error .truncated
  | _ :: _, [] => .error .truncated
  | _ :: budget, c :: cs =>
    if c = '"' then .ok cs
    else if c = '\\' then
      match skipEscape cs with
      | .error fault => .error fault
      | .ok rest => skipStringSteps budget rest
    else if c.toNat < 0x20 then .error .malformed
    else skipStringSteps budget cs

/-- The text after the closing quote of a string that is skipped over. -/
def skipString (cs : List Char) : Except Fault (List Char) :=
  skipStringSteps cs cs

end Hosting.Json
