import Hosting.Json.Fault

/-! # Numbers in JSON text

    The formats hold counts only, so a number is read as a natural number where it is one
    and otherwise only checked. A number that is checked also has to be within the range of
    a 64-bit float; one that is skipped over does not.

    A significand keeps as many leading digits as fit into 64 bits. Its product with the
    power of ten, both rounded to 53 bits, decides about the range.
-/

namespace Hosting.Json

/-- The value of a decimal digit. -/
def digit (c : Char) : Nat :=
  c.toNat - 48

/-- The largest 64-bit count. -/
def maxCount : Nat := 18446744073709551615

/-- A decimal number as far as it is kept: `significand · 10 ^ exponent`. -/
structure Scaled where
  significand : Nat
  exponent : Int
  /-- No further digit is kept. -/
  full : Bool
deriving Repr, DecidableEq

namespace Scaled

/-- A digit before the point. Once the significand is full it only counts. -/
def pushWhole (s : Scaled) (c : Char) : Scaled :=
  if s.full || maxCount < s.significand * 10 + digit c then
    ⟨s.significand, s.exponent + 1, true⟩
  else ⟨s.significand * 10 + digit c, s.exponent, false⟩

/-- A digit after the point. The first that does not fit ends the significand. -/
def pushFraction (s : Scaled) (c : Char) : Scaled :=
  if s.full || maxCount < s.significand * 10 + digit c then { s with full := true }
  else ⟨s.significand * 10 + digit c, s.exponent - 1, false⟩

/-- Nearest number with 53 significant bits, ties to even. -/
def round53 (n : Nat) : Nat :=
  let shift := n.log2 + 1 - 53
  let unit := Nat.pow 2 shift
  let low := n % unit
  let high := n / unit
  if 2 * low > unit || (2 * low == unit && high % 2 == 1) then (high + 1) * unit
  else high * unit

/-- Beyond the largest finite 64-bit float. -/
def outOfRange (s : Scaled) : Bool :=
  if s.significand = 0 || s.exponent < 0 then false
  else if 308 < s.exponent then true
  else
    Nat.pow 2 1024 - Nat.pow 2 970 ≤
      round53 s.significand * round53 (Nat.pow 10 s.exponent.toNat)

end Scaled

/-- Splits off the digits at the front. -/
def digits (cs : List Char) : List Char × List Char :=
  (cs.takeWhile Char.isDigit, cs.dropWhile Char.isDigit)

/-- At least one digit. A missing one is a fault of the kind that the end of the text decides. -/
def someDigits (cs : List Char) : Except Fault (List Char × List Char) :=
  match digits cs with
  | ([], []) => .error .truncated
  | ([], _) => .error .malformed
  | found => .ok found

/-- The digits before the point: a zero stands alone. -/
def wholeDigits (cs : List Char) : Except Fault (List Char × List Char) :=
  match someDigits cs with
  | .error fault => .error fault
  | .ok ('0' :: _ :: _, _) => .error .malformed
  | .ok found => .ok found

/-- The exponent after the letter, with its sign. -/
def exponentDigits (cs : List Char) : Except Fault (Bool × List Char × List Char) :=
  let (negative, rest) := match cs with
    | '-' :: r => (true, r)
    | '+' :: r => (false, r)
    | r => (false, r)
  match someDigits rest with
  | .error fault => .error fault
  | .ok (ds, r) => .ok (negative, ds, r)

/-- The value of a run of digits. -/
def decimal (ds : List Char) : Nat :=
  ds.foldl (fun n c => 10 * n + digit c) 0

/-- A checked number: a count, or any other number. -/
inductive Numeral where
  | count (n : Nat)
  | other
deriving Repr, DecidableEq

/-- Ends a number with a point or an exponent after the range check. -/
def checked (s : Scaled) (rest : List Char) : Except Fault (Numeral × List Char) :=
  if s.outOfRange then .error .malformed else .ok (.other, rest)

/-- What may follow the digits after the point. -/
def afterFraction (s : Scaled) : List Char → Except Fault (Numeral × List Char)
  | c :: cs =>
    if c = 'e' || c = 'E' then
      match exponentDigits cs with
      | .error fault => .error fault
      | .ok (negative, ds, rest) =>
        let e : Int := decimal ds
        checked { s with exponent := s.exponent + if negative then -e else e } rest
    else checked s (c :: cs)
  | [] => checked s []

/-- A number without its sign. -/
def unsigned (positive : Bool) (cs : List Char) : Except Fault (Numeral × List Char) :=
  match wholeDigits cs with
  | .error fault => .error fault
  | .ok (ds, rest) =>
    let s := ds.foldl Scaled.pushWhole ⟨0, 0, false⟩
    match rest with
    | '.' :: r =>
      match someDigits r with
      | .error fault => .error fault
      | .ok (fs, r) => afterFraction (fs.foldl Scaled.pushFraction s) r
    | 'e' :: _ | 'E' :: _ => afterFraction s rest
    | _ => if s.full then checked s rest
           else if positive then .ok (.count s.significand, rest) else .ok (.other, rest)

/-- A number from its first character on. A sign makes it no count, even before a zero. -/
def numeral : List Char → Except Fault (Numeral × List Char)
  | '-' :: cs => unsigned false cs
  | cs => unsigned true cs

/-! ### Skipping over a number -/

/-- At least one digit; a missing one is malformed wherever the text ends. -/
def skipDigits (cs : List Char) : Except Fault (List Char) :=
  match digits cs with
  | ([], _) => .error .malformed
  | (_, rest) => .ok rest

/-- The exponent of a number that is skipped over. -/
def skipExponent : List Char → Except Fault (List Char)
  | [] => .ok []
  | c :: cs =>
    if c = 'e' || c = 'E' then
      match cs with
      | '-' :: r => skipDigits r
      | '+' :: r => skipDigits r
      | r => skipDigits r
    else .ok (c :: cs)

/-- A number that is skipped over, from its first character on. -/
def skipNumber (cs : List Char) : Except Fault (List Char) :=
  let body := match cs with
    | '-' :: r => r
    | r => r
  match digits body with
  | ([], _) => .error .malformed
  | ('0' :: _ :: _, _) => .error .malformed
  | (_, '.' :: r) =>
    match skipDigits r with
    | .error fault => .error fault
    | .ok r => skipExponent r
  | (_, r) => skipExponent r

end Hosting.Json
