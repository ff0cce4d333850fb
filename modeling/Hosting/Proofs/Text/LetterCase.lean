import Hosting.Proofs.Text.Offsets
import Mathlib.Data.List.Forall2

/-! # Letters in both cases

    Texts that are compared without regard to case are compared character by character. The
    letters A to Z lie 32 below their small forms, and nothing else has two forms.

    - `toLower_cases`: what the small form of a character is.
    - `SameLetter`, `sameLetters_iff_forall₂`: equality up to case, said by code points.
    - `byteSize_eq_of_lowercase_eq`: texts that are equal up to case take as many bytes.
-/

namespace Hosting.Text

/-! ### Small forms -/

/-- A letter A to Z has a small form. Any other character is its own. -/
theorem toLower_cases (c : Char) :
    (65 ≤ c.toNat ∧ c.toNat ≤ 90 ∧ c.toLower.toNat = c.toNat + 32) ∨
      (¬ (65 ≤ c.toNat ∧ c.toNat ≤ 90) ∧ c.toLower = c) := by
  unfold Char.toLower
  split
  · next h =>
    obtain ⟨hge, hle⟩ := h
    have hge : 65 ≤ c.val.toNat := UInt32.le_iff_toNat_le.1 hge
    have hle : c.val.toNat ≤ 90 := UInt32.le_iff_toNat_le.1 hle
    refine .inl ⟨hge, hle, ?_⟩
    show (c.val + 32).toNat = c.val.toNat + 32
    rw [UInt32.toNat_add]
    show (c.val.toNat + 32) % 4294967296 = c.val.toNat + 32
    omega
  · next h =>
    refine .inr ⟨?_, rfl⟩
    rintro ⟨hge, hle⟩
    exact h ⟨UInt32.le_iff_toNat_le.2 hge, UInt32.le_iff_toNat_le.2 hle⟩

theorem eq_of_toNat_eq {c d : Char} (h : c.toNat = d.toNat) : c = d :=
  Char.ext (UInt32.toNat_inj.1 h)

/-- What is no small letter is the small form of itself only. -/
theorem toLower_eq_iff {c d : Char} (hd : ¬ (97 ≤ d.toNat ∧ d.toNat ≤ 122)) :
    c.toLower = d ↔ c = d ∧ ¬ (65 ≤ d.toNat ∧ d.toNat ≤ 90) := by
  rcases toLower_cases c with ⟨hge, hle, hval⟩ | ⟨hother, hsame⟩
  · constructor
    · rintro rfl
      omega
    · rintro ⟨rfl, hnot⟩
      exact absurd ⟨hge, hle⟩ hnot
  · rw [hsame]
    constructor
    · rintro rfl
      exact ⟨rfl, hother⟩
    · exact fun h => h.1

/-- No other character has the lower case of a slash. -/
theorem toLower_eq_slash_iff {c : Char} : c.toLower = '/' ↔ c = '/' := by
  rw [toLower_eq_iff (by decide)]
  exact and_iff_left (by decide)

theorem toLower_toLower (c : Char) : c.toLower.toLower = c.toLower := by
  rcases toLower_cases c.toLower with ⟨hge, hle, -⟩ | ⟨-, hsame⟩
  · -- a small form is not one of the letters A to Z
    rcases toLower_cases c with ⟨_, _, hval⟩ | ⟨hother, hsame⟩
    · omega
    · rw [hsame] at hge hle
      exact absurd ⟨hge, hle⟩ hother
  · exact hsame

theorem lowercase_lowercase (cs : List Char) : lowercase (lowercase cs) = lowercase cs := by
  unfold lowercase
  rw [List.map_map]
  exact List.map_congr_left fun c _ => toLower_toLower c

/-! ### Equality up to case -/

/-- The same character, or a letter A to Z and its small form. -/
def SameLetter (c d : Char) : Prop :=
  c = d ∨ (65 ≤ c.toNat ∧ c.toNat ≤ 90 ∧ d.toNat = c.toNat + 32) ∨
    (65 ≤ d.toNat ∧ d.toNat ≤ 90 ∧ c.toNat = d.toNat + 32)

instance : DecidableRel SameLetter :=
  fun _ _ => inferInstanceAs (Decidable (_ ∨ _ ∨ _))

theorem toLower_eq_toLower_iff {c d : Char} : c.toLower = d.toLower ↔ SameLetter c d := by
  have hval : c.toLower = d.toLower ↔ c.toLower.toNat = d.toLower.toNat :=
    ⟨congrArg Char.toNat, eq_of_toNat_eq⟩
  have hsame : c = d ↔ c.toNat = d.toNat := ⟨congrArg Char.toNat, eq_of_toNat_eq⟩
  unfold SameLetter
  rw [hval, hsame]
  rcases toLower_cases c with ⟨_, _, hc⟩ | ⟨_, hc⟩ <;>
    rcases toLower_cases d with ⟨_, _, hd⟩ | ⟨_, hd⟩ <;>
    rw [hc, hd] <;> omega

theorem sameLetters_iff_forall₂ {cs ds : List Char} :
    sameLetters cs ds = true ↔ List.Forall₂ SameLetter cs ds := by
  rw [sameLetters_iff]
  unfold lowercase
  rw [← List.forall₂_eq_eq_eq, List.forall₂_map_left_iff, List.forall₂_map_right_iff]
  simp only [toLower_eq_toLower_iff]

/-! ### Sizes -/

/-- A letter takes one byte in both forms. -/
theorem utf8Size_toLower (c : Char) : c.toLower.utf8Size = c.utf8Size := by
  have hsmall {d : Char} (hd : d.toNat ≤ 127) : d.utf8Size = 1 := by
    rw [Char.utf8Size_eq_one_iff]
    exact UInt32.le_iff_toNat_le.2 hd
  rcases toLower_cases c with ⟨_, _, hval⟩ | ⟨-, hsame⟩
  · rw [hsmall (d := c) (by omega), hsmall (d := c.toLower) (by omega)]
  · rw [hsame]

theorem byteSize_lowercase (cs : List Char) : byteSize (lowercase cs) = byteSize cs := by
  induction cs with
  | nil => rfl
  | cons c cs ih =>
    show byteSize (c.toLower :: lowercase cs) = byteSize (c :: cs)
    rw [byteSize_cons, byteSize_cons, utf8Size_toLower, ih]

theorem byteSize_eq_of_lowercase_eq {cs ds : List Char} (h : lowercase cs = lowercase ds) :
    byteSize cs = byteSize ds := by
  rw [← byteSize_lowercase cs, h, byteSize_lowercase]

end Hosting.Text
