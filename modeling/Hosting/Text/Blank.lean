/-! # Blank characters

    The characters that count as surrounding space in configuration text: those with the
    Unicode property White_Space. Trimming works on lists of characters.

    - `isBlank` is the table of the property;
    - `dropEnd` drops a trailing run, `strip` a leading and a trailing one.
-/

namespace Hosting.Text

/-- The characters with the property White_Space. -/
def isBlank (c : Char) : Bool :=
  let n := c.toNat
  (0x9 ≤ n && n ≤ 0xD) || n == 0x20 || n == 0x85 || n == 0xA0 || n == 0x1680 ||
    (0x2000 ≤ n && n ≤ 0x200A) || n == 0x2028 || n == 0x2029 || n == 0x202F ||
    n == 0x205F || n == 0x3000

/-- Drops the longest trailing run of characters in `p`. -/
def dropEnd (p : Char → Bool) : List Char → List Char
  | [] => []
  | c :: cs =>
    match dropEnd p cs with
    | [] => if p c then [] else [c]
    | rest => c :: rest

/-- Drops the longest leading and the longest trailing run of characters in `p`. -/
def strip (p : Char → Bool) (cs : List Char) : List Char :=
  dropEnd p (cs.dropWhile p)

end Hosting.Text
