import Hosting.Text.Hexadecimal
import Hosting.Text.Utf8

/-! # Percent-encoded texts

    A percent sign and two hexadecimal digits stand for a byte. A percent sign without
    them stands for itself, and a zero byte ends the text.
-/

namespace Hosting.Text

/-- The bytes that a percent-encoded text stands for. -/
def percentBytes : List Char → List Nat
  | [] => []
  | [c] => bytesOf c
  | [c, d] => bytesOf c ++ bytesOf d
  | c :: d :: e :: rest =>
    if c = '%' then
      match hexValue d, hexValue e with
      | some high, some low => (high * 16 + low) :: percentBytes rest
      | _, _ => bytesOf c ++ percentBytes (d :: e :: rest)
    else bytesOf c ++ percentBytes (d :: e :: rest)

/-- The text that a percent-encoded text stands for. -/
def percentDecoded (cs : List Char) : String :=
  .ofList (decode ((percentBytes cs).takeWhile (· ≠ 0)))

end Hosting.Text
