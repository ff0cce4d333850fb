import Hosting.Namespace
import Hosting.Proofs.Path.Normal

/-! # Components of joined paths

    Going down from a directory by a plain segment adds that segment as the last component
    of the path, whatever the text of the directory looks like: empty, relative, or with
    slashes at its end.

    Main statement: `components_placeBelow`, the place of a normal path lies below the root
    by exactly its segments.
-/

namespace Hosting

open Text VirtualPath

/-! ### Pieces around a separator -/

theorem Text.pieces_append {α : Type} {sep : α → Bool} {c : α} (hc : sep c) (cs ds : List α) :
    pieces sep (cs ++ c :: ds) = pieces sep cs ++ pieces sep ds := by
  induction cs with
  | nil => simp [pieces, hc]
  | cons d cs ih =>
    rw [List.cons_append, pieces, pieces, ih]
    split
    · rfl
    · cases hp : pieces sep cs with
      | nil => exact absurd hp (pieces_ne_nil sep cs)
      | cons run runs => rfl

theorem Text.segments_append_slash (cs ds : List Char) :
    segments (cs ++ '/' :: ds) = segments cs ++ segments ds :=
  pieces_append (by simp) cs ds

namespace FilePath

theorem piecesOf_append_slash (cs ds : List PathChar) :
    piecesOf (cs ++ .char '/' :: ds) = piecesOf cs ++ piecesOf ds :=
  pieces_append (by simp) cs ds

theorem head?_piecesOf_append_slash (cs ds : List PathChar) :
    (piecesOf (cs ++ .char '/' :: ds)).head? = (piecesOf cs).head? := by
  rw [piecesOf_append_slash]
  cases hp : piecesOf cs with
  | nil => exact absurd hp (pieces_ne_nil _ cs)
  | cons run runs => rfl

theorem piecesOf_of_no_slash {s : List PathChar} (hs : .char '/' ∉ s) : piecesOf s = [s] := by
  apply pieces_of_not_sep
  intro c hc
  rw [beq_eq_false_iff_ne]
  rintro rfl
  exact hs hc

/-! ### Names of a path -/

/-- A name that leads down by one component. -/
structure IsPlainName (name : List PathChar) : Prop where
  ne_nil : name ≠ []
  ne_here : name ≠ [.char '.']
  ne_up : name ≠ [.char '.', .char '.']
  no_slash : .char '/' ∉ name

/-- A plain segment is a name that leads down, and no other text is. -/
theorem isPlainName_map_iff {s : List Char} : IsPlainName (s.map .char) ↔ IsPlain s := by
  constructor
  · intro h
    refine ⟨?_, ?_, ?_, fun hmem => h.no_slash (PathChar.char_mem_map.2 hmem)⟩
    · rintro rfl
      exact h.ne_nil rfl
    · rintro rfl
      exact h.ne_here rfl
    · rintro rfl
      exact h.ne_up rfl
  · intro h
    refine ⟨fun hnil => h.ne_nil (List.map_eq_nil_iff.1 hnil), ?_, ?_,
      fun hmem => h.no_slash (PathChar.char_mem_map.1 hmem)⟩
    · intro (hhere : s.map PathChar.char = ['.'].map .char)
      exact h.ne_here (PathChar.map_char_inj.1 hhere)
    · intro (hup : s.map PathChar.char = ['.', '.'].map .char)
      exact h.ne_up (PathChar.map_char_inj.1 hup)

/-! ### One step down -/

theorem ofPiece?_of_isPlainName {s : List PathChar} (hs : IsPlainName s) :
    Component.ofPiece? s = some (.name s) := by
  unfold Component.ofPiece?
  rw [if_neg (by simp [hs.ne_nil, hs.ne_here]), if_neg hs.ne_up]

theorem componentsOf_of_isPlainName {s : List PathChar} (hs : IsPlainName s) :
    componentsOf s = [.name s] := by
  have hhead : s.head? ≠ some (.char '/') := fun e => hs.no_slash (List.mem_of_head? e)
  unfold componentsOf
  rw [piecesOf_of_no_slash hs.no_slash]
  simp [hhead, hs.ne_here, ofPiece?_of_isPlainName hs]

/-- A slash at the end does not count, unless it is the root. -/
theorem componentsOf_append_slash {cs : List PathChar} (h : cs ≠ []) :
    componentsOf (cs ++ [.char '/']) = componentsOf cs := by
  have hhead : (cs ++ [PathChar.char '/']).head? = cs.head? := by
    cases cs with
    | nil => exact absurd rfl h
    | cons c cs => rfl
  unfold componentsOf
  rw [head?_piecesOf_append_slash, piecesOf_append_slash, hhead, List.filterMap_append]
  simp [piecesOf, pieces, Component.ofPiece?]

/-- A piece behind a slash is one more component, if it counts. -/
theorem componentsOf_append_piece {s : List PathChar} (hs : .char '/' ∉ s) (cs : List PathChar) :
    componentsOf (cs ++ .char '/' :: s) =
      componentsOf (cs ++ [.char '/']) ++ (Component.ofPiece? s).toList := by
  have hhead : (cs ++ .char '/' :: s).head? = (cs ++ [PathChar.char '/']).head? := by cases cs <;> rfl
  have hempty : (piecesOf []).filterMap Component.ofPiece? = [] := rfl
  have hone : [s].filterMap Component.ofPiece? = (Component.ofPiece? s).toList := by
    rw [List.filterMap_cons]
    cases Component.ofPiece? s <;> rfl
  unfold componentsOf
  rw [head?_piecesOf_append_slash, head?_piecesOf_append_slash, piecesOf_append_slash,
    piecesOf_append_slash, piecesOf_of_no_slash hs, hhead, List.filterMap_append,
    List.filterMap_append, hempty, hone, List.append_nil, List.append_assoc]

theorem isAbsolute_of_no_slash {s : List PathChar} (hs : .char '/' ∉ s) :
    isAbsolute ⟨s⟩ = false := by
  unfold isAbsolute
  rw [beq_eq_false_iff_ne]
  exact fun e => hs (List.mem_of_head? e)

/-- What is put behind a path is one more component of it, if it counts. -/
theorem components_join_piece {base : FilePath} (hbase : base.chars ≠ []) {s : List PathChar}
    (hs : .char '/' ∉ s) :
    (base.join ⟨s⟩).components = base.components ++ (Component.ofPiece? s).toList := by
  unfold join components
  rw [if_neg (by simp [isAbsolute_of_no_slash hs])]
  by_cases hslash : base.endsInSlash = true
  · -- the slash between the two is the last character of the base
    rw [if_pos (by simp [hslash])]
    obtain ⟨front, hfront⟩ : ∃ front, base.chars = front ++ [.char '/'] :=
      List.getLast?_eq_some_iff.1 (beq_iff_eq.1 hslash)
    simp only [hfront, List.append_assoc, List.singleton_append]
    exact componentsOf_append_piece hs front
  · -- the slash that is put between does not count for the base
    rw [if_neg (by simp [hbase, hslash]), componentsOf_append_piece hs,
      componentsOf_append_slash hbase]

theorem components_join {s : List PathChar} (hs : IsPlainName s) (base : FilePath) :
    (base.join ⟨s⟩).components = base.components ++ [.name s] := by
  by_cases hbase : base.chars = []
  · -- the join is the name alone
    unfold join components
    rw [if_neg (by simp [isAbsolute_of_no_slash hs.no_slash]), if_pos (by simp [hbase]), hbase,
      List.nil_append, componentsOf_of_isPlainName hs]
    rfl
  · rw [components_join_piece hbase hs.no_slash, ofPiece?_of_isPlainName hs]
    rfl

end FilePath

/-! ### All the way down -/

theorem Namespace.components_foldl_join {plain : List (List Char)} (h : ∀ s ∈ plain, IsPlain s)
    (root : FilePath) :
    (plain.foldl (fun p s => p.join (.ofChars s)) root).components =
      root.components ++ plain.map .named := by
  induction plain generalizing root with
  | nil => simp
  | cons s plain ih =>
    rw [List.foldl_cons, ih fun t ht => h t (by simp [ht]),
      FilePath.ofChars, FilePath.components_join (FilePath.isPlainName_map_iff.2 (h s (by simp)))]
    simp [FilePath.Component.named]

theorem Namespace.components_placeBelow {normal : String} {plain : List (List Char)}
    {trailing : Bool} (h : ∀ s ∈ plain, IsPlain s)
    (hnormal : normal.toList = spell plain trailing) (root : FilePath) :
    (placeBelow root normal).components = root.components ++ plain.map .named := by
  have hnamed := named_spell h trailing
  rw [← hnormal] at hnamed
  unfold named at hnamed
  unfold placeBelow
  rw [hnamed]
  exact components_foldl_join h root

end Hosting
