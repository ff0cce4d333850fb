import Hosting.Text.Letters

/-! # Byte offsets

    A text takes one to four bytes for a character, and an offset counts bytes. A text can be
    cut at an offset that is not behind its end and not inside a character. These are the
    cuts behind some of its characters, so a reading by offsets can be told as a reading by
    characters as long as no cut fails.

    - `cut?`: the two parts at an offset.
    - `cut?_eq_some_iff`: they are parts of the text, and the first one ends at the offset.
    - `lastSlash?`: the offset of the last slash.
    - `lastSlash?_eq_some_iff`: no slash comes behind it, and the text can be cut there.
-/

namespace Hosting.Text

/-! ### Sizes -/

/-- The number of bytes that the characters take. -/
def byteSize (cs : List Char) : Nat :=
  (String.ofList cs).utf8ByteSize

@[simp] theorem byteSize_cons (c : Char) (cs : List Char) :
    byteSize (c :: cs) = c.utf8Size + byteSize cs := by
  unfold byteSize
  rw [String.ofList_cons, String.utf8ByteSize_append, String.utf8ByteSize_singleton]

@[simp] theorem byteSize_append (cs ds : List Char) :
    byteSize (cs ++ ds) = byteSize cs + byteSize ds := by
  unfold byteSize
  rw [String.ofList_append, String.utf8ByteSize_append]

theorem byteSize_toList (s : String) : byteSize s.toList = s.utf8ByteSize := by
  unfold byteSize
  rw [String.ofList_toList]

theorem byteSize_pos {cs : List Char} (h : cs ≠ []) : 0 < byteSize cs := by
  cases cs with
  | nil => exact absurd rfl h
  | cons c cs =>
    have hc := c.utf8Size_pos
    rw [byteSize_cons]
    omega

theorem byteSize_eq_zero_iff {cs : List Char} : byteSize cs = 0 ↔ cs = [] := by
  constructor
  · intro h
    by_cases hne : cs = []
    · exact hne
    · have hpos := byteSize_pos hne
      omega
  · rintro rfl
    rfl

/-- A text has one part at its start of each size. -/
theorem append_inj_of_byteSize {front back front' back' : List Char}
    (h : front ++ back = front' ++ back') (hsize : byteSize front = byteSize front') :
    front = front' ∧ back = back' := by
  have hmid {mid : List Char} {n : Nat} (hmid : n = n + byteSize mid) : mid = [] :=
    byteSize_eq_zero_iff.1 (by omega)
  rcases List.append_eq_append_iff.1 h with ⟨mid, rfl, rfl⟩ | ⟨mid, rfl, rfl⟩
  · rw [byteSize_append] at hsize
    obtain rfl := hmid hsize
    simp
  · rw [byteSize_append] at hsize
    obtain rfl := hmid hsize.symm
    simp

/-! ### Cuts -/

/-- The two parts of a text at a byte offset. There are none if the offset lies behind the end or
    inside a character. -/
def cut? (s : String) (offset : Nat) : Option (String × String) :=
  if h : (String.Pos.Raw.mk offset).IsValid s then
    some ((s.sliceTo ⟨⟨offset⟩, h⟩).copy, (s.sliceFrom ⟨⟨offset⟩, h⟩).copy)
  else none

theorem cut?_eq_some_iff {s front back : String} {offset : Nat} :
    cut? s offset = some (front, back) ↔ s = front ++ back ∧ front.utf8ByteSize = offset := by
  unfold cut?
  constructor
  · intro h
    split at h
    · next hvalid =>
      obtain ⟨rfl, rfl⟩ := Prod.mk.inj (Option.some.inj h)
      have hsplits := String.Pos.splits (s := s) ⟨⟨offset⟩, hvalid⟩
      exact ⟨hsplits.eq_append, (congrArg String.Pos.Raw.byteIdx hsplits.offset_eq_rawEndPos).symm⟩
    · cases h
  · rintro ⟨rfl, rfl⟩
    have hvalid : (String.Pos.Raw.mk front.utf8ByteSize).IsValid (front ++ back) :=
      String.Pos.Raw.isValid_iff_exists_append.2 ⟨front, back, rfl, rfl⟩
    rw [dif_pos hvalid]
    -- the position has one part of the text before it
    have hsplits := String.Pos.splits (s := front ++ back) ⟨⟨front.utf8ByteSize⟩, hvalid⟩
    have hparts : String.Pos.Splits (s := front ++ back) ⟨⟨front.utf8ByteSize⟩, hvalid⟩ front back :=
      ⟨rfl, rfl⟩
    obtain ⟨hfront, hback⟩ := hsplits.eq hparts
    rw [hfront, hback]

/-- Behind some of its characters, a text can be cut. -/
theorem cut?_append (front back : List Char) :
    cut? (.ofList (front ++ back)) (byteSize front) = some (.ofList front, .ofList back) :=
  cut?_eq_some_iff.2 ⟨String.ofList_append, rfl⟩

/-! ### The last slash -/

/-- The offset of the last slash of a text. -/
def lastSlash? : List Char → Option Nat
  | [] => none
  | c :: cs =>
    match lastSlash? cs with
    | some offset => some (c.utf8Size + offset)
    | none => if c = '/' then some 0 else none

theorem lastSlash?_eq_none_iff {cs : List Char} : lastSlash? cs = none ↔ '/' ∉ cs := by
  induction cs with
  | nil => simp [lastSlash?]
  | cons c cs ih =>
    rw [lastSlash?, List.mem_cons, not_or]
    cases hrest : lastSlash? cs with
    | some offset =>
      have hmem : ¬ '/' ∉ cs := by
        rw [← ih, hrest]
        exact Option.some_ne_none offset
      simp [hmem]
    | none =>
      have hmem := ih.1 hrest
      by_cases hc : c = '/'
      · simp [hc]
      · simp [hc, hmem, Ne.symm hc]

theorem lastSlash?_eq_some_iff {cs : List Char} {offset : Nat} :
    lastSlash? cs = some offset ↔
      ∃ front back, cs = front ++ '/' :: back ∧ '/' ∉ back ∧ byteSize front = offset := by
  constructor
  · intro h
    induction cs generalizing offset with
    | nil => cases h
    | cons c cs ih =>
      rw [lastSlash?] at h
      cases hrest : lastSlash? cs with
      | some inner =>
        simp only [hrest, Option.some.injEq] at h
        obtain ⟨front, back, rfl, hback, rfl⟩ := ih hrest
        exact ⟨c :: front, back, rfl, hback, by rw [byteSize_cons, h]⟩
      | none =>
        simp only [hrest] at h
        split at h
        · next hc =>
          obtain rfl := Option.some.inj h
          exact ⟨[], cs, by rw [hc, List.nil_append], lastSlash?_eq_none_iff.1 hrest, rfl⟩
        · cases h
  · rintro ⟨front, back, rfl, hback, rfl⟩
    induction front with
    | nil =>
      rw [List.nil_append, lastSlash?, lastSlash?_eq_none_iff.2 hback]
      rfl
    | cons c front ih =>
      rw [List.cons_append, lastSlash?, ih, byteSize_cons]

end Hosting.Text
