import Hosting.Text.Utf8
import Mathlib.Algebra.Order.Group.Nat

/-! # The order of bytes

    Names in a directory are put in the order of their bytes, and texts are compared by their
    characters. A character is a first byte, which tells how many more there are, and then
    the digits of its number to the base 64, so that both orders are the same.

    - `digits_lt`: numbers with the same leading part are in the order of their last digits.
    - `firstByte_lt_or`: the first byte grows with the number.
    - `bytes_lt_iff`: the order of texts is that of their bytes.
-/

namespace Hosting.Text

/-- The bytes of a text. -/
def bytes (s : String) : List Nat :=
  s.toList.flatMap bytesOf

/-! ### Numbers as bytes -/

section Numbers

variable {v w : Nat} {xs ys : List Nat}

/-- The last digits of a number to the base 64, each as a byte that is no first one. -/
def digits : Nat → Nat → List Nat
  | 0, _ => []
  | n + 1, v => (0x80 + v / 64 ^ n % 64) :: digits n v

/-- How many bytes come behind the first one. -/
def behindFirst (v : Nat) : Nat :=
  if v < 0x80 then 0 else if v < 0x800 then 1 else if v < 0x10000 then 2 else 3

/-- What the first byte is above the leading part of the number. -/
def mark : Nat → Nat
  | 0 => 0
  | 1 => 0xC0
  | 2 => 0xE0
  | _ => 0xF0

/-- The first byte: how many come behind it, and the leading part of the number. -/
def firstByte (v : Nat) : Nat :=
  mark (behindFirst v) + v / 64 ^ behindFirst v

/-- The ranges of the numbers with no, one, two and three bytes behind the first. -/
theorem behindFirst_cases (v : Nat) :
    v < 0x80 ∧ behindFirst v = 0 ∨ (0x80 ≤ v ∧ v < 0x800) ∧ behindFirst v = 1 ∨
      (0x800 ≤ v ∧ v < 0x10000) ∧ behindFirst v = 2 ∨ 0x10000 ≤ v ∧ behindFirst v = 3 := by
  unfold behindFirst
  by_cases h1 : v < 0x80
  · exact .inl ⟨h1, if_pos h1⟩
  rw [if_neg h1]
  by_cases h2 : v < 0x800
  · exact .inr (.inl ⟨⟨by omega, h2⟩, if_pos h2⟩)
  rw [if_neg h2]
  by_cases h3 : v < 0x10000
  · exact .inr (.inr (.inl ⟨⟨by omega, h3⟩, if_pos h3⟩))
  · exact .inr (.inr (.inr ⟨by omega, if_neg h3⟩))

theorem bytesOf_eq (c : Char) :
    bytesOf c = firstByte c.toNat :: digits (behindFirst c.toNat) c.toNat := by
  unfold bytesOf firstByte
  generalize c.toNat = v
  rcases behindFirst_cases v with ⟨hrange, h⟩ | ⟨hrange, h⟩ | ⟨hrange, h⟩ | ⟨hrange, h⟩
  · rw [h]
    simp [hrange, mark, digits]
  · rw [h]
    simp [hrange, Nat.not_lt.2 hrange.1, mark, digits]
  · have hlarge : ¬ v < 0x80 := by omega
    rw [h]
    simp [hrange, hlarge, Nat.not_lt.2 hrange.1, mark, digits]
  · have hlarge : ¬ v < 0x80 ∧ ¬ v < 0x800 := by omega
    rw [h]
    simp [hlarge, Nat.not_lt.2 hrange, mark, digits]

/-- The digits decide between numbers with the same leading part, whatever follows. -/
theorem digits_lt (n : Nat) (h : v < w) (hlead : v / 64 ^ n = w / 64 ^ n) :
    digits n v ++ xs < digits n w ++ ys := by
  induction n with
  | zero =>
    rw [Nat.pow_zero, Nat.div_one, Nat.div_one] at hlead
    omega
  | succ n ih =>
    rw [Nat.pow_succ, ← Nat.div_div_eq_div_mul, ← Nat.div_div_eq_div_mul] at hlead
    have hle : v / 64 ^ n ≤ w / 64 ^ n := Nat.div_le_div_right (Nat.le_of_lt h)
    rw [digits, digits, List.cons_append, List.cons_append]
    apply List.cons_lt_cons_iff.2
    by_cases heq : v / 64 ^ n = w / 64 ^ n
    · rw [heq]
      exact .inr ⟨rfl, ih heq⟩
    · left
      omega

/-- Of two numbers, the greater one has the greater first byte, or it has the same one. Then as many
    bytes come behind it, and the leading parts are the same. -/
theorem firstByte_lt_or (h : v < w) :
    firstByte v < firstByte w ∨
      behindFirst v = behindFirst w ∧ v / 64 ^ behindFirst v = w / 64 ^ behindFirst w := by
  unfold firstByte
  -- with more bytes behind it the first byte is greater, otherwise the leading parts decide
  rcases behindFirst_cases v with ⟨hrange, hv⟩ | ⟨hrange, hv⟩ | ⟨hrange, hv⟩ | ⟨hrange, hv⟩ <;>
    rcases behindFirst_cases w with ⟨hrange', hw⟩ | ⟨hrange', hw⟩ | ⟨hrange', hw⟩ | ⟨hrange', hw⟩ <;>
    rw [hv, hw] <;> simp only [mark, true_and] <;> omega

end Numbers

/-! ### Characters and texts -/

/-- Of two characters, the smaller one has the smaller bytes, whatever follows. -/
theorem bytesOf_append_lt {c d : Char} (h : c < d) (xs ys : List Nat) :
    bytesOf c ++ xs < bytesOf d ++ ys := by
  have hlt : c.toNat < d.toNat := h
  rw [bytesOf_eq, bytesOf_eq, List.cons_append, List.cons_append]
  apply List.cons_lt_cons_iff.2
  rcases firstByte_lt_or hlt with hfirst | ⟨hbehind, hlead⟩
  · exact .inl hfirst
  · right
    constructor
    · unfold firstByte
      rw [hlead, hbehind]
    · rw [hbehind] at hlead ⊢
      exact digits_lt _ hlt hlead

theorem flatMap_bytesOf_lt {cs ds : List Char} (h : cs < ds) :
    cs.flatMap bytesOf < ds.flatMap bytesOf := by
  induction cs generalizing ds with
  | nil =>
    cases ds with
    | nil => exact absurd h (List.lt_irrefl _)
    | cons d ds =>
      rw [List.flatMap_cons, bytesOf_eq]
      exact List.nil_lt_cons ..
  | cons c cs ih =>
    cases ds with
    | nil => exact absurd h (List.not_lt_nil _)
    | cons d ds =>
      rw [List.flatMap_cons, List.flatMap_cons]
      rcases List.cons_lt_cons_iff.1 h with hlt | ⟨rfl, hrest⟩
      · exact bytesOf_append_lt hlt _ _
      · exact List.append_left_lt (ih hrest)

/-- Texts are in the order of their bytes. -/
theorem bytes_lt_iff {a b : String} : bytes a < bytes b ↔ a < b := by
  constructor
  · intro h
    -- one of the two is the smaller one, and the bytes cannot be in both orders
    by_cases hba : b < a
    · exact absurd h (List.lt_asymm (flatMap_bytesOf_lt hba))
    · apply Decidable.byContradiction
      intro hab
      rw [String.le_antisymm (String.not_lt.1 hba) (String.not_lt.1 hab)] at h
      exact List.lt_irrefl _ h
  · intro h
    exact flatMap_bytesOf_lt h

end Hosting.Text
