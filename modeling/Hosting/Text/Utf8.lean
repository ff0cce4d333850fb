/-! # Texts from bytes

    Bytes that came from outside need not be UTF-8. Where they are not, each longest run
    that could have begun a character is read as one replacement character.

    - `bytesOf` are the bytes of a character;
    - `decode` reads any bytes.
-/

namespace Hosting.Text

/-- The bytes of a character. -/
def bytesOf (c : Char) : List Nat :=
  let n := c.toNat
  if n < 0x80 then [n]
  else if n < 0x800 then [0xC0 + n / 64, 0x80 + n % 64]
  else if n < 0x10000 then [0xE0 + n / 4096, 0x80 + n / 64 % 64, 0x80 + n % 64]
  else [0xF0 + n / 262144, 0x80 + n / 4096 % 64, 0x80 + n / 64 % 64, 0x80 + n % 64]

/-- How many bytes follow a first byte, and the least and greatest of what can follow next. -/
def sequel? (b : Nat) : Option (Nat × Nat × Nat) :=
  if b < 0xC2 then none
  else if b ≤ 0xDF then some (1, 0x80, 0xBF)
  else if b = 0xE0 then some (2, 0xA0, 0xBF)
  else if b = 0xED then some (2, 0x80, 0x9F)
  else if b ≤ 0xEF then some (2, 0x80, 0xBF)
  else if b = 0xF0 then some (3, 0x90, 0xBF)
  else if b ≤ 0xF3 then some (3, 0x80, 0xBF)
  else if b = 0xF4 then some (3, 0x80, 0x8F)
  else none

/-- The bytes at the front, `n` at most, that can follow in a character, of which the first one
    lies between bounds of its own. -/
def following : Nat → Nat → Nat → List Nat → List Nat
  | n + 1, least, greatest, b :: bs =>
    if least ≤ b ∧ b ≤ greatest then b :: following n 0x80 0xBF bs else []
  | _, _, _, _ => []

/-- The character of a first byte and those that follow it. -/
def assembled (first : Nat) (rest : List Nat) : Char :=
  let head := match rest.length with
    | 1 => first % 32
    | 2 => first % 16
    | _ => first % 8
  .ofNat (rest.foldl (fun n b => n * 64 + b % 64) head)

/-- The character that stands for bytes that are none. -/
def replacement : Char := .ofNat 0xFFFD

/-- The characters of bytes. -/
def decode : List Nat → List Char
  | [] => []
  | b :: bs =>
    if b < 0x80 then .ofNat b :: decode bs
    else
      match sequel? b with
      | none => replacement :: decode bs
      | some (n, least, greatest) =>
        let rest := following n least greatest bs
        (if rest.length = n then assembled b rest else replacement) :: decode (bs.drop rest.length)
termination_by bs => bs.length
decreasing_by
  all_goals simp only [List.length_cons, List.length_drop]
  all_goals omega

end Hosting.Text
