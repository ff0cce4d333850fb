/-! # Hexadecimal digits

    One digit and its value: digits are written in lower case and read in either.
-/

namespace Hosting.Text

/-- The digit for a value below sixteen, lower case. -/
def hexDigit (n : Nat) : Char :=
  if n < 10 then .ofNat (48 + n) else .ofNat (87 + n)

/-- The value of a hexadecimal digit. -/
def hexValue (c : Char) : Option Nat :=
  if '0' ≤ c ∧ c ≤ '9' then some (c.toNat - 48)
  else if 'a' ≤ c ∧ c ≤ 'f' then some (c.toNat - 87)
  else if 'A' ≤ c ∧ c ≤ 'F' then some (c.toNat - 55)
  else none

theorem hexValue_hexDigit (n : Nat) (h : n < 16) : hexValue (hexDigit n) = some n := by
  have key : ∀ k : Fin 16, hexValue (hexDigit k.val) = some k.val := by decide
  exact key ⟨n, h⟩

end Hosting.Text
