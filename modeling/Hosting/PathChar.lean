import Hosting.Text.Utf8

/-! # Characters of file paths

    A file path is a list of bytes, and these need not be UTF-8. It is kept as the characters
    that its bytes are. Bytes that are no character stay as they are, in the runs that
    `Text.decode` would each read as one replacement character. So every list of bytes is kept
    in one way only. Runs in a row that decoding would take together are the path of no bytes,
    and what is proved of all paths is proved of these besides.

    - `Stray` is such a run, so that no character can be taken for one;
    - `PathChar.shown` is what a reader sees, `PathChar.text?` is the text if it is one.
-/

namespace Hosting

/-- The bytes could have begun a character, as many of them as possible, but are none. -/
def Text.isBroken : List Nat → Bool
  | [] => false
  | first :: rest =>
    0x80 ≤ first && first < 0x100 &&
      match sequel? first with
      | none => rest.isEmpty
      | some (n, least, greatest) =>
        rest.length < n && following n least greatest rest == rest

/-- Bytes in a path that are no character. -/
structure Stray where
  bytes : List Nat
  broken : Text.isBroken bytes = true
deriving DecidableEq, Repr

/-- A character of a path, or what stands in the place of one. -/
inductive PathChar where
  | char (c : Char)
  | stray (s : Stray)
deriving DecidableEq, Repr

namespace PathChar

/-- What a reader sees of it. -/
def shown : PathChar → Char
  | .char c => c
  | .stray _ => Text.replacement

/-- The number of its bytes. -/
def size : PathChar → Nat
  | .char c => c.utf8Size
  | .stray s => s.bytes.length

/-- It is a character. -/
def isChar : PathChar → Bool
  | .char _ => true
  | .stray _ => false

/-- The characters of a path, if they are a text. -/
def text? (cs : List PathChar) : Option (List Char) :=
  if cs.all isChar then some (cs.map shown) else none

/-- Every text can stand in a path. -/
instance : Coe String (List PathChar) := ⟨fun text => text.toList.map .char⟩

/-- Texts in a row stand for paths in a row. -/
instance : Coe (List String) (List (List PathChar)) := ⟨List.map fun text => text⟩

/-! ### Texts as paths -/

theorem char_mem_map {c : Char} {cs : List Char} : .char c ∈ cs.map PathChar.char ↔ c ∈ cs := by
  simp

theorem map_char_inj {cs ds : List Char} :
    cs.map PathChar.char = ds.map PathChar.char ↔ cs = ds :=
  List.map_inj_right fun _ _ => PathChar.char.inj

@[simp] theorem map_shown_char (cs : List Char) : (cs.map PathChar.char).map shown = cs := by
  rw [List.map_map]
  exact List.map_id'' (fun _ => rfl) cs

@[simp] theorem all_isChar_map (cs : List Char) : (cs.map PathChar.char).all isChar = true := by
  simp [isChar]

/-- Where all is characters, what is shown is all there is. -/
theorem map_char_shown {cs : List PathChar} (h : cs.all isChar = true) :
    (cs.map shown).map PathChar.char = cs := by
  rw [List.map_map, List.map_congr_left (g := id), List.map_id]
  intro c hc
  have hchar := List.all_eq_true.1 h c hc
  cases c with
  | char c => rfl
  | stray s => cases hchar

theorem text?_eq_some_iff {cs : List PathChar} {text : List Char} :
    text? cs = some text ↔ cs = text.map .char := by
  unfold text?
  constructor
  · intro h
    split at h
    · next hall =>
      rw [← Option.some.inj h, map_char_shown hall]
    · cases h
  · rintro rfl
    rw [if_pos (all_isChar_map text), map_shown_char]

end PathChar

end Hosting
