import Hosting.FilePath
import Hosting.Text.Hexadecimal
import Hosting.Text.Unprintable

/-! # Quoted paths in messages

    Messages show a path in double quotes. Quotes and backslashes inside get a backslash,
    and a character that does not print is written by its number, as are bytes that are
    no character.
-/

namespace Hosting

/-- A character between quotes. -/
def Text.shown (c : Char) : List Char :=
  if c = '"' then ['\\', '"']
  else if c = '\\' then ['\\', '\\']
  else if c = '\n' then ['\\', 'n']
  else if c = '\r' then ['\\', 'r']
  else if c = '\t' then ['\\', 't']
  else if c = .ofNat 0 then ['\\', '0']
  else if isUnprintable c then
    '\\' :: 'u' :: '\x7b' :: (Nat.toDigits 16 c.toNat ++ ['\x7d'])
  else [c]

/-- What stands between quotes for a character of a path. -/
def PathChar.quoted : PathChar → List Char
  | .char c => Text.shown c
  | .stray s =>
    s.bytes.flatMap fun b =>
      ['\\', 'x', (Text.hexDigit (b / 16)).toUpper, (Text.hexDigit (b % 16)).toUpper]

/-- The path in quotes. -/
def FilePath.quoted (p : FilePath) : String :=
  .ofList ('"' :: (p.chars.flatMap PathChar.quoted ++ ['"']))

end Hosting
