import Hosting.Proofs.Path.Components

/-! # File names

    The name of a path is its last component. Another name in place of it leaves the components
    before it as they are, whatever slashes the text of the path has, and is itself one more
    component only if it counts as one. A name is taken apart at its last dot.

    - `splitLastDot_eq_some_iff`: nothing behind the last dot is a dot.
    - `eq_append_extension`: a name with an extension is its stem, a dot and the extension.
    - `components_parent`: the parent of a path has its components but the last.
    - `components_withFileName`: the components of a path under another name.
-/

namespace Hosting.FilePath

open Text VirtualPath

/-! ### Stems and extensions -/

theorem splitLastDot_eq_none_iff {name : List PathChar} :
    splitLastDot name = none ↔ .char '.' ∉ name := by
  induction name with
  | nil => exact iff_of_true rfl List.not_mem_nil
  | cons c cs ih =>
    rw [splitLastDot]
    cases hrest : splitLastDot cs with
    | some parts =>
      rw [hrest] at ih
      simp only [reduceCtorEq, false_iff, Classical.not_not] at ih ⊢
      exact List.mem_cons_of_mem _ ih
    | none =>
      have hnone : .char '.' ∉ cs := ih.1 hrest
      by_cases hc : c = .char '.'
      · simp [hc]
      · simp [hc, hnone, Ne.symm hc]

theorem splitLastDot_eq_some_iff {name before after : List PathChar} :
    splitLastDot name = some (before, after) ↔
      name = before ++ .char '.' :: after ∧ .char '.' ∉ after := by
  induction name generalizing before after with
  | nil => simp [splitLastDot]
  | cons c cs ih =>
    rw [splitLastDot]
    cases hrest : splitLastDot cs with
    | some parts =>
      obtain ⟨front, back⟩ := parts
      obtain ⟨hcs, hback⟩ := ih.1 hrest
      simp only [Option.some.injEq, Prod.mk.injEq]
      constructor
      · rintro ⟨rfl, rfl⟩
        exact ⟨by rw [hcs, List.cons_append], hback⟩
      · rintro ⟨hsplit, hafter⟩
        cases before with
        | nil =>
          -- the rest would have no dot
          obtain ⟨-, rfl⟩ := List.cons.inj hsplit
          rw [splitLastDot_eq_none_iff.2 hafter] at hrest
          cases hrest
        | cons d before =>
          obtain ⟨rfl, hrestsplit⟩ := List.cons.inj hsplit
          rw [ih.2 ⟨hrestsplit, hafter⟩] at hrest
          obtain ⟨rfl, rfl⟩ := Prod.mk.inj (Option.some.inj hrest)
          exact ⟨rfl, rfl⟩
    | none =>
      have hnone : .char '.' ∉ cs := splitLastDot_eq_none_iff.1 hrest
      simp only
      constructor
      · intro h
        split at h
        · next hc =>
          obtain ⟨rfl, rfl⟩ := Prod.mk.inj (Option.some.inj h)
          exact ⟨by rw [hc, List.nil_append], hnone⟩
        · cases h
      · rintro ⟨hsplit, hafter⟩
        cases before with
        | nil =>
          obtain ⟨rfl, rfl⟩ := List.cons.inj hsplit
          rfl
        | cons d before =>
          rw [(List.cons.inj hsplit).2] at hnone
          exact absurd (List.mem_append_right _ List.mem_cons_self) hnone

/-- A name with an extension is its stem, a dot and the extension. -/
theorem eq_append_extension {name extension : List PathChar}
    (h : extensionOf name = some extension) :
    name = stemOf name ++ .char '.' :: extension ∧ stemOf name ≠ [] ∧
      .char '.' ∉ extension := by
  unfold extensionOf at h
  split at h
  · next c before after hsplit =>
    obtain rfl := Option.some.inj h
    obtain ⟨hname, hafter⟩ := splitLastDot_eq_some_iff.1 hsplit
    have hstem : stemOf name = c :: before := by
      unfold stemOf
      rw [hsplit]
    exact ⟨by rw [hstem]; exact hname, by rw [hstem]; exact List.cons_ne_nil _ _, hafter⟩
  · cases h

theorem exists_stem_of_extension? {p : FilePath} {extension : List PathChar}
    (h : p.extension? = some extension) :
    ∃ stem, p.stem? = some stem ∧ p.fileName? = some (stem ++ .char '.' :: extension) ∧
      stem ≠ [] ∧ .char '.' ∉ extension := by
  unfold extension? at h
  obtain ⟨name, hname, hextension⟩ := Option.bind_eq_some_iff.1 h
  obtain ⟨hsplit, hne, hdot⟩ := eq_append_extension hextension
  refine ⟨stemOf name, ?_, ?_, hne, hdot⟩
  · unfold stem?
    rw [hname]
    rfl
  · rw [← hsplit]
    exact hname

/-! ### Names among the components -/

theorem not_slash_of_mem_piecesOf {cs piece : List PathChar} (h : piece ∈ piecesOf cs) :
    .char '/' ∉ piece := by
  intro hmem
  have hsep := not_sep_of_mem_pieces h (.char '/') hmem
  simp at hsep

theorem of_ofPiece?_eq_name {piece name : List PathChar} (hslash : .char '/' ∉ piece)
    (h : Component.ofPiece? piece = some (.name name)) : IsPlainName name := by
  unfold Component.ofPiece? at h
  split at h
  · cases h
  · next hidle =>
    split at h
    · cases h
    · next hup =>
      obtain rfl := Component.name.inj (Option.some.inj h)
      exact ⟨fun hnil => hidle (.inl hnil), fun hhere => hidle (.inr hhere), hup, hslash⟩

/-- A name among the components of a path leads down. -/
theorem isPlainName_of_mem_components {p : FilePath} {name : List PathChar}
    (h : .name name ∈ p.components) : IsPlainName name := by
  unfold components componentsOf at h
  rcases List.mem_append.1 h with hstart | hpiece
  · split at hstart
    · simp at hstart
    · split at hstart <;> simp at hstart
  · obtain ⟨piece, hmem, hname⟩ := List.mem_filterMap.1 hpiece
    exact of_ofPiece?_eq_name (not_slash_of_mem_piecesOf hmem) hname

theorem getLast?_of_fileName? {p : FilePath} {name : List PathChar}
    (h : p.fileName? = some name) : p.components.getLast? = some (.name name) := by
  unfold fileName? at h
  split at h
  · next last hlast =>
    obtain rfl := Option.some.inj h
    exact hlast
  · cases h

theorem isPlainName_of_fileName? {p : FilePath} {name : List PathChar}
    (h : p.fileName? = some name) : IsPlainName name :=
  isPlainName_of_mem_components (List.mem_of_getLast? (getLast?_of_fileName? h))

/-! ### Pieces that do not count -/

theorem ofPiece?_eq_none_iff {piece : List PathChar} :
    Component.ofPiece? piece = none ↔ isIdle piece = true := by
  unfold Component.ofPiece? isIdle
  by_cases hidle : piece = [] ∨ piece = [.char '.']
  · simp [hidle]
  · rw [if_neg hidle]
    obtain ⟨hnil, hhere⟩ := not_or.1 hidle
    split <;> simp [hnil, hhere]

theorem filterMap_dropIdle (pieces : List (List PathChar)) :
    (dropIdle pieces).filterMap Component.ofPiece? = pieces.filterMap Component.ofPiece? := by
  induction pieces with
  | nil => rfl
  | cons piece rest ih =>
    rw [dropIdle, List.filterMap_cons (l := rest)]
    cases hrest : dropIdle rest with
    | nil =>
      rw [hrest] at ih
      rw [← ih]
      by_cases hidle : isIdle piece = true
      · simp [hidle, ofPiece?_eq_none_iff.2 hidle]
      · cases hpiece : Component.ofPiece? piece with
        | none => exact absurd (ofPiece?_eq_none_iff.1 hpiece) hidle
        | some component => simp [hidle, hpiece]
    | cons kept more =>
      rw [hrest] at ih
      simp only [← ih, List.filterMap_cons]

theorem prefix_dropIdle (pieces : List (List PathChar)) : dropIdle pieces <+: pieces := by
  induction pieces with
  | nil => exact List.prefix_rfl
  | cons piece rest ih =>
    rw [dropIdle]
    cases hrest : dropIdle rest with
    | nil =>
      simp only
      split
      · exact List.nil_prefix
      · exact List.prefix_cons_inj piece |>.2 List.nil_prefix
    | cons kept more =>
      rw [hrest] at ih
      exact (List.prefix_cons_inj piece).2 ih

/-- What is left ends in a piece that counts. -/
theorem dropIdle_cases (pieces : List (List PathChar)) :
    dropIdle pieces = [] ∨ ∃ front last c,
      dropIdle pieces = front ++ [last] ∧ Component.ofPiece? last = some c := by
  induction pieces with
  | nil => exact .inl rfl
  | cons piece rest ih =>
    rw [dropIdle]
    rcases ih with hnil | ⟨front, last, c, hkept, hlast⟩
    · rw [hnil]
      cases hpiece : Component.ofPiece? piece with
      | none => exact .inl (if_pos (ofPiece?_eq_none_iff.1 hpiece))
      | some c =>
        have hidle : ¬ isIdle piece = true := by
          rw [← ofPiece?_eq_none_iff, hpiece]
          exact Option.some_ne_none c
        exact .inr ⟨[], piece, c, if_neg hidle, hpiece⟩
    · rw [hkept]
      refine .inr ⟨piece :: front, last, c, ?_, hlast⟩
      cases front <;> rfl

/-- The pieces of a path made of pieces count as before. -/
theorem filterMap_piecesOf_joined {runs : List (List PathChar)}
    (h : ∀ run ∈ runs, .char '/' ∉ run) :
    (piecesOf (joined (.char '/') runs)).filterMap Component.ofPiece? =
      runs.filterMap Component.ofPiece? := by
  by_cases hruns : runs = []
  · rw [hruns]
    rfl
  · unfold piecesOf
    rw [pieces_joined hruns h]

/-! ### The parent and other names -/

theorem piecesOf_rooted (cs : List PathChar) :
    piecesOf (.char '/' :: cs) = [] :: piecesOf cs :=
  rfl

theorem components_rooted (cs : List PathChar) :
    componentsOf (.char '/' :: cs) = .root :: (piecesOf cs).filterMap Component.ofPiece? := by
  unfold componentsOf
  rw [piecesOf_rooted]
  simp [Component.ofPiece?]

theorem exists_rooted_of_isAbsolute {p : FilePath} (h : p.isAbsolute = true) :
    ∃ cs, p.chars = .char '/' :: cs := by
  unfold isAbsolute at h
  exact List.head?_eq_some_iff.1 (beq_iff_eq.1 h)

theorem parent?_rooted {p : FilePath} {cs last : List PathChar} {front : List (List PathChar)}
    (hcs : p.chars = .char '/' :: cs) (hkept : dropIdle (piecesOf cs) = front ++ [last]) :
    p.parent? = some ⟨.char '/' :: joined (.char '/') (dropIdle front)⟩ := by
  unfold parent?
  simp only [hcs, piecesOf_rooted, hkept]
  split
  · next hnil => simp at hnil
  · simp

/-- The parent of a path from the root has its components but the last. -/
theorem components_parent {p : FilePath} {name : List PathChar} (habs : p.isAbsolute = true)
    (h : p.fileName? = some name) :
    ∃ above, p.parent? = some above ∧ above.isAbsolute = true ∧
      p.components = above.components ++ [.name name] := by
  obtain ⟨cs, hcs⟩ := exists_rooted_of_isAbsolute habs
  have hlast := getLast?_of_fileName? h
  unfold components at hlast ⊢
  rw [hcs, components_rooted, ← filterMap_dropIdle] at hlast ⊢
  -- the last piece that counts is the name
  rcases dropIdle_cases (piecesOf cs) with hnil | ⟨front, last, c, hkept, hc⟩
  · rw [hnil] at hlast
    cases hlast
  have hsplit : (dropIdle (piecesOf cs)).filterMap Component.ofPiece? =
      front.filterMap Component.ofPiece? ++ [c] := by
    rw [hkept, List.filterMap_append]
    simp [hc]
  rw [hsplit, ← List.cons_append, List.getLast?_concat] at hlast
  obtain rfl := Option.some.inj hlast
  have hslash : ∀ run ∈ dropIdle front, .char '/' ∉ run := by
    intro run hrun
    have hmem : run ∈ dropIdle (piecesOf cs) := by
      rw [hkept]
      exact List.mem_append_left _ ((prefix_dropIdle front).subset hrun)
    exact not_slash_of_mem_piecesOf ((prefix_dropIdle _).subset hmem)
  refine ⟨_, parent?_rooted hcs hkept, by simp [isAbsolute], ?_⟩
  rw [hsplit, components_rooted, filterMap_piecesOf_joined hslash, filterMap_dropIdle,
    List.cons_append]

/-- Another name in place of the last one comes behind the same components, if it counts. -/
theorem components_withFileName {p : FilePath} {name new : List PathChar}
    (habs : p.isAbsolute = true) (h : p.fileName? = some name) (hnew : .char '/' ∉ new) :
    ∃ dir, p.components = dir ++ [.name name] ∧
      (p.withFileName new).components = dir ++ (Component.ofPiece? new).toList := by
  obtain ⟨above, hparent, habove, hcomponents⟩ := components_parent habs h
  have hne : above.chars ≠ [] := by
    intro hempty
    rw [isAbsolute, hempty] at habove
    cases habove
  refine ⟨above.components, hcomponents, ?_⟩
  unfold withFileName
  rw [h, hparent]
  exact components_join_piece hne hnew

end Hosting.FilePath
