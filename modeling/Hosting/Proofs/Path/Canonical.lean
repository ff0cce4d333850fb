import Hosting.Machine

/-! # Canonical paths

    The canonical path of a location is the one from the root without links. A location can be
    reached by links although its canonical path is too long to be looked up, and then it
    has none. In a tree where every path from the root is short enough this does not happen.

    - `mem_places_of_entryAt`: every location with an entry is among the places of a tree.
    - `walk_of_fits`: where all locations fit, a walk does not notice the limit.
    - `isReached_of_walk`: a walk leads to a directory or to a file, never to a link.
    - `canonical_eq_ofNames`: the canonical path is that of the location a path leads to.
    - `exists_canonical`: whatever a path leads to has a canonical path.
-/

namespace Hosting

namespace FileTree

/-! ### Locations of a tree -/

/-- Every path from the root is short enough to be looked up. -/
def IsShort (t : FileTree) : Prop :=
  ∀ place ∈ t.places, pathSize place ≤ maxPathSize

instance (t : FileTree) : Decidable t.IsShort :=
  inferInstanceAs (Decidable (∀ place ∈ t.places, pathSize place ≤ maxPathSize))

theorem mem_placesBelow {children : List (String × FileTree)} {name : String} {child : FileTree}
    {rest : Location} (hchild : children.lookup name = some child)
    (hrest : rest = [] ∨ rest ∈ child.places) : name :: rest ∈ placesBelow children := by
  induction children with
  | nil => cases hchild
  | cons entry others ih =>
    obtain ⟨other, t⟩ := entry
    rw [placesBelow]
    rw [List.lookup_cons] at hchild
    by_cases hname : name = other
    · have heq : (name == other) = true := beq_iff_eq.2 hname
      rw [heq] at hchild
      obtain rfl := Option.some.inj hchild
      rcases hrest with rfl | hrest
      · rw [hname]
        exact List.mem_cons_self ..
      · apply List.mem_cons_of_mem
        apply List.mem_append_left
        rw [hname]
        exact List.mem_map_of_mem hrest
    · have hne : (name == other) = false := by simpa using hname
      rw [hne] at hchild
      apply List.mem_cons_of_mem
      apply List.mem_append_right
      exact ih hchild

theorem mem_places_of_entryAt {t : FileTree} {place : Location}
    (h : (t.entryAt place).isSome = true) : place = [] ∨ place ∈ t.places := by
  induction place generalizing t with
  | nil => exact .inl rfl
  | cons name rest ih =>
    obtain ⟨entry, children⟩ := t
    cases hchild : children.lookup name with
    | none =>
      simp [entryAt, subtree?, child?, FileTree.children, hchild] at h
    | some child =>
      have hbelow : (child.entryAt rest).isSome = true := by
        simpa [entryAt, subtree?, child?, FileTree.children, hchild] using h
      refine .inr ?_
      rw [places]
      exact mem_placesBelow hchild (ih hbelow)

/-! ### Walks -/

section Walks

variable {t : FileTree} {fits fits' : Location → Bool}

/-- A walk within one limit does not notice another one that all locations within the first keep
    where there is an entry. -/
theorem walkWith_of_fits
    (hfits : ∀ place, (t.entryAt place).isSome = true → fits place = true → fits' place = true)
    {jump jump' : Location → List String → Except OsError Location}
    (hjump : ∀ here steps place, jump here steps = .ok place → jump' here steps = .ok place)
    {here place : Location} {steps : List String}
    (h : t.walkWith fits jump here steps = .ok place) :
    t.walkWith fits' jump' here steps = .ok place := by
  induction steps generalizing here with
  | nil => exact h
  | cons step rest ih =>
    rw [walkWith] at h ⊢
    by_cases hdirectory : t.entryAt here ≠ some .directory
    · rw [if_pos hdirectory] at h
      cases h
    rw [if_neg hdirectory] at h ⊢
    by_cases hhere : step = "."
    · rw [if_pos hhere] at h ⊢
      exact ih h
    rw [if_neg hhere] at h ⊢
    by_cases hup : step = ".."
    · rw [if_pos hup] at h ⊢
      exact ih h
    rw [if_neg hup] at h ⊢
    by_cases hlimit : (decide (255 < step.utf8ByteSize) || !fits (here ++ [step])) = true
    · rw [if_pos hlimit] at h
      cases h
    rw [if_neg hlimit] at h
    -- the limit is only looked at here, and where it may matter there is an entry
    cases hentry : t.entryAt (here ++ [step]) with
    | none =>
      rw [hentry] at h
      cases h
    | some entry =>
      obtain ⟨hshort, hfit⟩ : ¬ 255 < step.utf8ByteSize ∧ fits (here ++ [step]) = true := by
        simpa using hlimit
      have hfit' : fits' (here ++ [step]) = true := hfits _ (by rw [hentry]; rfl) hfit
      rw [if_neg (by simpa [hfit'] using hshort)]
      rw [hentry] at h
      cases entry with
      | link target => exact hjump _ _ _ h
      | directory => exact ih h
      | file content => exact ih h

theorem walk_of_fits
    (hfits : ∀ place, (t.entryAt place).isSome = true → fits place = true → fits' place = true)
    {links : Nat} {here place : Location} {steps : List String}
    (h : t.walk fits links here steps = .ok place) :
    t.walk fits' links here steps = .ok place := by
  induction links generalizing here place steps with
  | zero => exact walkWith_of_fits hfits (fun _ _ _ hjump => hjump) h
  | succ links ih => exact walkWith_of_fits hfits (fun _ _ _ hjump => ih hjump) h

end Walks

/-! ### What a walk leads to -/

section Reached

variable {t : FileTree} {here : Location}

/-- The location and all those above it are directories. -/
def IsOpen (t : FileTree) (here : Location) : Prop :=
  ∀ above, above <+: here → t.entryAt above = some .directory

/-- A directory or a file, in a directory that is open. -/
structure IsReached (t : FileTree) (here : Location) : Prop where
  above : t.IsOpen here.dropLast
  entry : t.entryAt here = some .directory ∨ ∃ content, t.entryAt here = some (.file content)

theorem IsOpen.isReached (h : t.IsOpen here) : t.IsReached here :=
  ⟨fun above habove => h above (habove.trans (List.dropLast_prefix here)),
    .inl (h here List.prefix_rfl)⟩

theorem IsOpen.dropLast (h : t.IsOpen here) : t.IsOpen here.dropLast :=
  h.isReached.above

theorem IsOpen.nil (h : t.IsOpen here) : t.IsOpen [] := by
  intro above habove
  rw [List.prefix_nil.1 habove]
  exact h [] List.nil_prefix

theorem IsReached.isOpen (h : t.IsReached here) (hdirectory : t.entryAt here = some .directory) :
    t.IsOpen here := by
  rcases List.eq_nil_or_concat here with rfl | ⟨front, name, rfl⟩
  · intro above habove
    rw [List.prefix_nil.1 habove]
    exact hdirectory
  · rw [List.concat_eq_append] at h hdirectory ⊢
    intro above habove
    rcases List.prefix_concat_iff.1 habove with rfl | hfront
    · exact hdirectory
    · apply h.above
      rw [List.dropLast_concat]
      exact hfront

theorem IsOpen.isReached_child (h : t.IsOpen here) {name : String}
    (hentry : t.entryAt (here ++ [name]) = some .directory ∨
      ∃ content, t.entryAt (here ++ [name]) = some (.file content)) :
    t.IsReached (here ++ [name]) :=
  ⟨by rw [List.dropLast_concat]; exact h, hentry⟩

/-- A walk goes on from directories only, and from a link to the directory it stands in or to the
    root. -/
theorem isReached_of_walkWith {fits : Location → Bool}
    {jump : Location → List String → Except OsError Location}
    (hjump : ∀ here steps place, t.IsOpen here → jump here steps = .ok place → t.IsReached place)
    {place : Location} {steps : List String} (hhere : t.IsReached here)
    (h : t.walkWith fits jump here steps = .ok place) : t.IsReached place := by
  induction steps generalizing here with
  | nil =>
    obtain rfl : here = place := Except.ok.inj h
    exact hhere
  | cons step rest ih =>
    rw [walkWith] at h
    split at h
    · cases h
    next hdirectory =>
    have hopen : t.IsOpen here := hhere.isOpen (Classical.not_not.1 hdirectory)
    split at h
    · exact ih hhere h
    split at h
    · exact ih hopen.dropLast.isReached h
    split at h
    · cases h
    cases hentry : t.entryAt (here ++ [step]) with
    | none =>
      rw [hentry] at h
      cases h
    | some entry =>
      rw [hentry] at h
      cases entry with
      | link target =>
        refine hjump _ _ _ ?_ h
        split
        · exact hopen.nil
        · exact hopen
      | directory => exact ih (hopen.isReached_child (.inl hentry)) h
      | file content => exact ih (hopen.isReached_child (.inr ⟨content, hentry⟩)) h

theorem isReached_of_walk {fits : Location → Bool} {links : Nat} {place : Location}
    {steps : List String} (hhere : t.IsOpen here)
    (h : t.walk fits links here steps = .ok place) : t.IsReached place := by
  induction links generalizing here steps place with
  | zero =>
    refine isReached_of_walkWith ?_ hhere.isReached h
    intro _ _ _ _ hjump
    cases hjump
  | succ links ih =>
    refine isReached_of_walkWith ?_ hhere.isReached h
    intro _ _ _ hopen hjump
    exact ih hopen hjump

end Reached

end FileTree

namespace Machine

variable {m : Machine} {p : FilePath}

theorem exists_resolve_of_kindOf {kind : Kind} (h : m.kindOf p = .ok kind) :
    ∃ place, m.resolve p = .ok place := by
  unfold kindOf at h
  split at h
  · cases h
  · next place hplace => exact ⟨place, hplace⟩

theorem resolve_eq_ok_iff {place : Location} :
    m.resolve p = .ok place ↔
      checkText p = .ok () ∧ p.size ≤ FileTree.maxPathSize ∧
        m.files.walk (fun _ => true) FileTree.maxLinks (m.origin p) (FileTree.steps p.text) =
          .ok place := by
  unfold resolve checkPath
  cases checkText p with
  | error e => simp
  | ok checked =>
    by_cases hlong : FileTree.maxPathSize < p.size
    · simp [hlong, Nat.not_le.2 hlong]
    · simp [hlong, Nat.le_of_not_lt hlong]

theorem canonical_eq_ok_iff {q : FilePath} :
    m.canonical p = .ok q ↔
      checkText p = .ok () ∧ ∃ place, q = .ofNames place ∧
        m.files.walk (FileTree.pathSize · ≤ FileTree.maxPathSize) FileTree.maxLinks (m.origin p)
          (FileTree.steps p.text) = .ok place := by
  unfold canonical
  cases checkText p with
  | error e => simp
  | ok checked =>
    cases m.files.walk (FileTree.pathSize · ≤ FileTree.maxPathSize) FileTree.maxLinks (m.origin p)
      (FileTree.steps p.text) with
    | error e => simp [Except.map]
    | ok place => simp [Except.map, eq_comm]

/-- The canonical path is that of the location the path leads to. -/
theorem canonical_eq_ofNames {q : FilePath} {place : Location} (hplace : m.resolve p = .ok place)
    (h : m.canonical p = .ok q) : q = .ofNames place := by
  obtain ⟨-, -, hwalk⟩ := resolve_eq_ok_iff.1 hplace
  obtain ⟨-, found, rfl, hfound⟩ := canonical_eq_ok_iff.1 h
  rw [FileTree.walk_of_fits (fun _ _ _ => rfl) hfound] at hwalk
  rw [Except.ok.inj hwalk]

/-- In a tree of short paths, whatever a path leads to has a canonical path. -/
theorem exists_canonical (hshort : m.files.IsShort) {kind : Kind} (h : m.kindOf p = .ok kind) :
    ∃ place, m.canonical p = .ok place := by
  obtain ⟨place, hplace⟩ := exists_resolve_of_kindOf h
  obtain ⟨htext, -, hwalk⟩ := resolve_eq_ok_iff.1 hplace
  refine ⟨.ofNames place, canonical_eq_ok_iff.2 ⟨htext, place, rfl, ?_⟩⟩
  refine FileTree.walk_of_fits ?_ hwalk
  intro place hentry _
  apply decide_eq_true
  rcases FileTree.mem_places_of_entryAt hentry with rfl | hmem
  · exact Nat.zero_le _
  · exact hshort place hmem

/-- Whatever else than a directory a path leads to is a regular file, once the place where the path
    begins is open. -/
theorem exists_content_of_kindOf (hopen : m.files.IsOpen (m.origin p)) {place : Location}
    (hplace : m.resolve p = .ok place) (h : m.kindOf p = .ok .file) :
    ∃ content, m.files.entryAt place = some (.file content) := by
  obtain ⟨-, -, hwalk⟩ := resolve_eq_ok_iff.1 hplace
  rcases (FileTree.isReached_of_walk hopen hwalk).entry with hdirectory | hfile
  · unfold kindOf at h
    rw [hplace] at h
    simp [hdirectory] at h
  · exact hfile

end Machine

end Hosting
