import Hosting.VirtualPath

/-! # Normal spellings of virtual paths

    What `normalize` gives, said apart from how it is computed.

    - A segment is *plain* if it names something below where it stands: it is not empty,
      no `.`, no `..`, and holds no slash.
    - A path is *normal* if it spells a list of plain segments, with or without a slash
      at its end.

    Main statements: `isNormal_of_normalize`, the result is normal, and
    `normalize_of_isNormal`, a normal path is left as it is.
-/

namespace Hosting.VirtualPath

open Text

/-! ### Names and steps up -/

/-- The segment that leads up. -/
def up : List Char := ['.', '.']

/-- The segment leads down. -/
def IsName (segment : List Char) : Prop :=
  segment ≠ [] ∧ segment ≠ ['.'] ∧ segment ≠ up

instance (segment : List Char) : Decidable (IsName segment) :=
  inferInstanceAs (Decidable (_ ∧ _ ∧ _))

theorem not_isName_up : ¬ IsName up := by
  intro h
  exact h.2.2 rfl

/-- A segment is passed over, takes a name back, or is a name. -/
theorem segment_cases (s : List Char) : (s = [] ∨ s = ['.']) ∨ s = up ∨ IsName s := by
  by_cases hidle : s = [] ∨ s = ['.']
  · exact .inl hidle
  by_cases hup : s = up
  · exact .inr (.inl hup)
  · exact .inr (.inr ⟨fun h => hidle (.inl h), fun h => hidle (.inr h), hup⟩)

theorem plainFrom_cons_of_idle {s : List Char} (hs : s = [] ∨ s = ['.'])
    (kept rest : List (List Char)) : plainFrom kept (s :: rest) = plainFrom kept rest := by
  rw [plainFrom.eq_def]
  simp only [if_pos hs]

theorem plainFrom_nil_cons_up (rest : List (List Char)) : plainFrom [] (up :: rest) = none := rfl

theorem plainFrom_cons_cons_up (top : List Char) (above rest : List (List Char)) :
    plainFrom (top :: above) (up :: rest) = plainFrom above rest := rfl

theorem plainFrom_cons_of_isName {s : List Char} (hs : IsName s) (kept rest : List (List Char)) :
    plainFrom kept (s :: rest) = plainFrom (s :: kept) rest := by
  obtain ⟨hne, hhere, hup⟩ := hs
  unfold up at hup
  rw [plainFrom.eq_def]
  simp only [hne, hhere, hup, or_self, if_false]

/-! ### Plain segments -/

/-- A segment that leads down by one name. -/
structure IsPlain (segment : List Char) : Prop where
  ne_nil : segment ≠ []
  ne_here : segment ≠ ['.']
  ne_up : segment ≠ ['.', '.']
  no_slash : '/' ∉ segment

instance (segment : List Char) : Decidable (IsPlain segment) :=
  decidable_of_iff (segment ≠ [] ∧ segment ≠ ['.'] ∧ segment ≠ ['.', '.'] ∧ '/' ∉ segment)
    ⟨fun ⟨hne, hhere, hup, hslash⟩ => ⟨hne, hhere, hup, hslash⟩,
      fun h => ⟨h.ne_nil, h.ne_here, h.ne_up, h.no_slash⟩⟩

/-- A path that spells plain segments. -/
def IsNormal (path : String) : Prop :=
  ∃ plain trailing, (∀ s ∈ plain, IsPlain s) ∧ path.toList = spell plain trailing

theorem IsName.isPlain {s : List Char} (hs : IsName s) (hslash : '/' ∉ s) : IsPlain s :=
  ⟨hs.1, hs.2.1, hs.2.2, hslash⟩

theorem IsPlain.isName {s : List Char} (hs : IsPlain s) : IsName s :=
  ⟨hs.ne_nil, hs.ne_here, hs.ne_up⟩

theorem not_sep_of_no_slash {s : List Char} (hs : '/' ∉ s) : ∀ c ∈ s, (c == '/') = false := by
  intro c hc
  rw [beq_eq_false_iff_ne]
  rintro rfl
  exact hs hc

/-- No character of a plain segment separates. -/
theorem IsPlain.not_sep {s : List Char} (hs : IsPlain s) : ∀ c ∈ s, (c == '/') = false :=
  not_sep_of_no_slash hs.no_slash

theorem IsPlain.segments_eq {s : List Char} (hs : IsPlain s) : segments s = [s] :=
  pieces_of_not_sep hs.not_sep

theorem not_slash_of_mem_segments {cs segment : List Char} (h : segment ∈ segments cs) :
    '/' ∉ segment := by
  intro hmem
  have := not_sep_of_mem_pieces h '/' hmem
  simp at this

/-- Segments are kept or dropped whole, so what is kept is plain. -/
theorem isPlain_of_plainFrom {kept rest plain : List (List Char)}
    (hkept : ∀ s ∈ kept, IsPlain s) (hrest : ∀ s ∈ rest, '/' ∉ s)
    (h : plainFrom kept rest = some plain) : ∀ s ∈ plain, IsPlain s := by
  -- what is kept so far is plain, and each step keeps it so
  induction rest generalizing kept with
  | nil =>
    simp only [plainFrom, Option.some.injEq] at h
    intro s hs
    rw [← h, List.mem_reverse] at hs
    exact hkept s hs
  | cons segment rest ih =>
    obtain ⟨hslash, hrest'⟩ := List.forall_mem_cons.1 hrest
    rcases segment_cases segment with hidle | rfl | hname
    · rw [plainFrom_cons_of_idle hidle] at h
      exact ih hkept hrest' h
    · -- one level up: the last segment kept is given back
      cases kept with
      | nil =>
        rw [plainFrom_nil_cons_up] at h
        cases h
      | cons top above =>
        rw [plainFrom_cons_cons_up] at h
        exact ih (List.forall_mem_cons.1 hkept).2 hrest' h
    · rw [plainFrom_cons_of_isName hname] at h
      exact ih (List.forall_mem_cons.2 ⟨hname.isPlain hslash, hkept⟩) hrest' h

theorem isPlain_of_plainSegments {cs : List Char} {plain : List (List Char)}
    (h : plainSegments cs = some plain) : ∀ s ∈ plain, IsPlain s :=
  isPlain_of_plainFrom (by simp) (fun _ hs => not_slash_of_mem_segments hs) h

theorem isNormal_of_normalize {path normal : String} (h : normalize path = some normal) :
    IsNormal normal := by
  unfold normalize normalizeChars at h
  obtain ⟨cs, hcs, rfl⟩ := Option.map_eq_some_iff.1 h
  obtain ⟨plain, hplain, rfl⟩ := Option.map_eq_some_iff.1 hcs
  exact ⟨plain, path.toList.getLast? == some '/', isPlain_of_plainSegments hplain, by simp⟩

/-! ### The segments of a spelling -/

/-- Plain segments are all kept, and the empty ones between them do not count. -/
theorem plainFrom_of_filter {rest plain : List (List Char)} (kept : List (List Char))
    (hrest : rest.filter (· ≠ []) = plain) (h : ∀ s ∈ plain, IsPlain s) :
    plainFrom kept rest = some (kept.reverse ++ plain) := by
  -- `plain` is what the filter leaves of the rest, so it changes with every step
  induction rest generalizing kept plain with
  | nil => simp [plainFrom, ← hrest]
  | cons s rest ih =>
    by_cases hs : s = []
    · subst hs
      rw [List.filter_cons_of_neg (by simp)] at hrest
      rw [plainFrom_cons_of_idle (.inl rfl), ih kept hrest h]
    · rw [List.filter_cons_of_pos (by simp [hs])] at hrest
      subst hrest
      rw [plainFrom_cons_of_isName (h s (by simp)).isName, ih (s :: kept) rfl fun t ht =>
        h t (List.mem_cons_of_mem _ ht)]
      simp

/-- The segments that a text holds, the empty ones left aside. -/
def named (cs : List Char) : List (List Char) :=
  (segments cs).filter (· ≠ [])

@[simp] theorem named_nil : named [] = [] := rfl

@[simp] theorem named_slash (cs : List Char) : named ('/' :: cs) = named cs := by
  simp [named, segments, pieces]

theorem named_of_isPlain {s : List Char} (hs : IsPlain s) : named s = [s] := by
  unfold named
  rw [hs.segments_eq]
  simp [hs.ne_nil]

theorem named_append_slash {s : List Char} (hs : IsPlain s) (cs : List Char) :
    named (s ++ '/' :: cs) = s :: named cs := by
  unfold named segments
  rw [pieces_append_sep cs hs.not_sep (by simp)]
  simp [hs.ne_nil]

/-- A list of plain segments is found again behind its slashes, whatever slashes end it. -/
theorem named_flatMap {plain : List (List Char)} (h : ∀ s ∈ plain, IsPlain s)
    {tail : List Char} (htail : tail = [] ∨ tail = ['/']) :
    named (plain.flatMap ('/' :: ·) ++ tail) = plain := by
  induction plain with
  | nil => rcases htail with rfl | rfl <;> rfl
  | cons s plain ih =>
    have hs := h s (by simp)
    have ih := ih fun t ht => h t (by simp [ht])
    rw [List.flatMap_cons, List.cons_append, List.cons_append, named_slash, List.append_assoc]
    cases hrest : plain.flatMap ('/' :: ·) ++ tail with
    | nil =>
      rw [hrest] at ih
      rw [List.append_nil, named_of_isPlain hs, ← ih, named_nil]
    | cons c cs =>
      -- what follows a segment is the next one or the slash at the end
      have hc : '/' = c := by
        cases plain with
        | nil =>
          rcases htail with rfl | rfl
          · simp at hrest
          · exact (List.cons.inj hrest).1
        | cons t plain => exact (List.cons.inj hrest).1
      subst hc
      rw [named_append_slash hs, ← ih, hrest, named_slash]

theorem spell_eq (plain : List (List Char)) (trailing : Bool) :
    ∃ tail, (tail = [] ∨ tail = ['/']) ∧
      spell plain trailing = plain.flatMap ('/' :: ·) ++ tail := by
  unfold spell
  simp only
  split
  · exact ⟨['/'], .inr rfl, rfl⟩
  · exact ⟨[], .inl rfl, by simp⟩

theorem named_spell {plain : List (List Char)} (h : ∀ s ∈ plain, IsPlain s) (trailing : Bool) :
    named (spell plain trailing) = plain := by
  obtain ⟨tail, htail, hspell⟩ := spell_eq plain trailing
  rw [hspell, named_flatMap h htail]

theorem plainSegments_spell {plain : List (List Char)} (h : ∀ s ∈ plain, IsPlain s)
    (trailing : Bool) : plainSegments (spell plain trailing) = some plain := by
  have hnamed := named_spell h trailing
  unfold named at hnamed
  rw [plainSegments, plainFrom_of_filter [] hnamed h]
  simp

/-- Plain segments behind their slashes do not end in a slash. -/
theorem getLast?_flatMap_ne {plain : List (List Char)} (h : ∀ s ∈ plain, IsPlain s) :
    (plain.flatMap ('/' :: ·)).getLast? ≠ some '/' := by
  by_cases hnil : plain = []
  · simp [hnil]
  · -- they end in the last segment, which holds no slash
    obtain ⟨front, last, rfl⟩ : ∃ front last, plain = front ++ [last] :=
      ⟨plain.dropLast, plain.getLast hnil, (List.dropLast_concat_getLast hnil).symm⟩
    have hl := h last (by simp)
    rw [List.flatMap_append, List.flatMap_singleton, List.getLast?_append,
      List.getLast?_cons_of_ne_nil hl.ne_nil, List.getLast?_eq_some_getLast hl.ne_nil,
      Option.some_or]
    intro heq
    exact hl.no_slash (Option.some.inj heq ▸ List.getLast_mem hl.ne_nil)

/-- Spelling again with the slash that a spelling ends in changes nothing. -/
theorem spell_getLast {plain : List (List Char)} (h : ∀ s ∈ plain, IsPlain s)
    (trailing : Bool) :
    spell plain ((spell plain trailing).getLast? == some '/') = spell plain trailing := by
  by_cases hnil : plain = []
  · subst hnil
    simp [spell]
  · cases trailing with
    | true => simp [spell]
    | false =>
      have hbody : spell plain false = plain.flatMap ('/' :: ·) := by
        cases plain with
        | nil => exact absurd rfl hnil
        | cons s plain => simp [spell]
      have hend := beq_eq_false_iff_ne.2 (getLast?_flatMap_ne h)
      rw [hbody, hend, hbody]

theorem normalize_of_isNormal {path : String} (h : IsNormal path) : normalize path = some path := by
  obtain ⟨plain, trailing, hplain, hpath⟩ := h
  unfold normalize normalizeChars
  rw [hpath, plainSegments_spell hplain, Option.map_some, spell_getLast hplain, ← hpath]
  simp

end Hosting.VirtualPath
