import Hosting.Proofs.Path.SoundTrees

/-! # Paths that spell a location

    The path from the root that spells the names of a location asks for them one by one, so in
    a sound tree it leads down to the location. With a name behind it, the canonical path of a
    directory is such a path. It is looked up as a text, so it has to be short enough, even
    where a shorter path leads to the same file by links.

    - `steps_ofNames`, `size_ofNames`: what the path of a location asks for.
    - `ofNames_join`: a name behind the path of a directory.
    - `LeadsTo`: where a path leads, however long it is.
    - `isFile_child_iff`: a regular file is found under the path of a name if the name is one, or
      a link to one, and the path is short.
    - `names?_ofNames_iff`, `names?_eq_none`: what is listed under the path of a location.
-/

namespace Hosting

open Text VirtualPath

namespace FilePath

variable {place : Location} {name : String}

open FileTree

/-! ### The path of a location -/

theorem cons_joined (c : Char) {runs : List (List Char)} (h : runs ≠ []) :
    c :: joined c runs = runs.flatMap (c :: ·) := by
  induction runs with
  | nil => exact absurd rfl h
  | cons run rest ih =>
    cases rest with
    | nil => exact (List.flatMap_singleton ..).symm
    | cons next rest =>
      have hnext : next :: rest ≠ [] := List.cons_ne_nil next rest
      rw [List.flatMap_cons, ← ih hnext, joined, List.cons_append]
      exact hnext

/-- The path of a location is a text in which every name stands behind a slash. -/
theorem ofNames_eq (hne : place ≠ []) :
    ofNames place = .ofChars ((place.map String.toList).flatMap ('/' :: ·)) := by
  have hruns : place.map String.toList ≠ [] := fun h => hne (List.map_eq_nil_iff.1 h)
  unfold ofNames
  rw [cons_joined '/' hruns]

theorem size_ofChars (cs : List Char) : (ofChars cs).size = byteSize cs := by
  show sizeOf (cs.map .char) = byteSize cs
  induction cs with
  | nil => rfl
  | cons c cs ih =>
    rw [List.map_cons, sizeOf, ih, byteSize_cons]
    rfl

theorem isPlain_of_mem_map (h : ∀ name ∈ place, IsFileName name) :
    ∀ segment ∈ place.map String.toList, IsPlain segment := by
  intro segment hsegment
  obtain ⟨name, hname, rfl⟩ := List.mem_map.1 hsegment
  exact (h name hname).plain

theorem isAbsolute_ofNames (place : Location) : (ofNames place).isAbsolute = true := by
  unfold ofNames ofChars isAbsolute
  simp

theorem isEmpty_ofNames (place : Location) : (ofNames place).chars.isEmpty = false := by
  unfold ofNames ofChars
  simp

theorem getLast?_ofNames_ne (hne : place ≠ []) (h : ∀ name ∈ place, IsFileName name) :
    (ofNames place).text.toList.getLast? ≠ some '/' := by
  rw [ofNames_eq hne, text_ofChars, String.toList_ofList]
  exact getLast?_flatMap_ne (isPlain_of_mem_map h)

theorem endsInSlash_ofNames (hne : place ≠ []) (h : ∀ name ∈ place, IsFileName name) :
    (ofNames place).endsInSlash = false := by
  unfold endsInSlash
  rw [beq_eq_false_iff_ne, ofNames_eq hne]
  intro hlast
  unfold ofChars at hlast
  rw [List.getLast?_map] at hlast
  obtain ⟨c, hc, heq⟩ := Option.map_eq_some_iff.1 hlast
  rw [PathChar.char.inj heq] at hc
  exact getLast?_flatMap_ne (isPlain_of_mem_map h) hc

/-- A name behind the path of a directory spells the location of the name. -/
theorem ofNames_join (hplace : ∀ name ∈ place, IsFileName name) (hname : IsFileName name) :
    (ofNames place).join ⟨name⟩ = ofNames (place ++ [name]) := by
  have hrelative : ¬ (FilePath.mk name).isAbsolute = true := by
    rw [isAbsolute_of_no_slash fun h => hname.plain.no_slash (PathChar.char_mem_map.1 h)]
    exact Bool.false_ne_true
  unfold join
  rw [if_neg hrelative]
  by_cases hne : place = []
  · -- the root has its slash already
    rw [hne]
    unfold ofNames ofChars endsInSlash
    simp [joined]
  · rw [if_neg (by simp [endsInSlash_ofNames hne hplace, isEmpty_ofNames]), ofNames_eq hne,
      ofNames_eq (by simp), List.map_append, List.flatMap_append]
    unfold ofChars
    simp

theorem fileName?_join {s : List PathChar} (hs : IsPlainName s) (base : FilePath) :
    (base.join ⟨s⟩).fileName? = some s := by
  unfold fileName?
  rw [components_join hs, List.getLast?_concat]

theorem names_ofNames (h : ∀ name ∈ place, IsFileName name) :
    FileTree.names (ofNames place).text = place := by
  have hnamed : named (ofNames place).text.toList = place.map String.toList := by
    by_cases hne : place = []
    · rw [hne]
      rfl
    · rw [ofNames_eq hne, text_ofChars, String.toList_ofList, ← List.append_nil (List.flatMap _ _)]
      exact named_flatMap (isPlain_of_mem_map h) (.inl rfl)
  show (named (ofNames place).text.toList).map String.ofList = place
  rw [hnamed, List.map_map]
  exact List.map_id'' (fun name => String.ofList_toList) place

theorem steps_ofNames (hne : place ≠ []) (h : ∀ name ∈ place, IsFileName name) :
    FileTree.steps (ofNames place).text = place := by
  unfold FileTree.steps
  rw [if_neg (getLast?_ofNames_ne hne h), names_ofNames h]

theorem size_ofNames (hne : place ≠ []) : (ofNames place).size = pathSize place := by
  have hsize (names : Location) :
      byteSize ((names.map String.toList).flatMap ('/' :: ·)) = pathSize names := by
    induction names with
    | nil => rfl
    | cons name rest ih =>
      rw [List.map_cons, List.flatMap_cons, byteSize_append, byteSize_cons, byteSize_toList, ih]
      rfl
  rw [ofNames_eq hne, size_ofChars, hsize]

theorem checkText_ofNames (h : ∀ name ∈ place, IsFileName name) :
    Machine.checkText (ofNames place) = .ok () := by
  have hzero : ¬ (ofNames place).chars.contains (.char (.ofNat 0)) = true := by
    by_cases hne : place = []
    · rw [hne]
      decide
    · rw [ofNames_eq hne, List.contains_iff_mem]
      intro hmem
      obtain ⟨segment, hsegment, hmem⟩ := List.mem_flatMap.1 (PathChar.char_mem_map.1 hmem)
      obtain ⟨name, hname, rfl⟩ := List.mem_map.1 hsegment
      rcases List.mem_cons.1 hmem with hslash | hmem
      · exact absurd hslash (by decide)
      · exact (h name hname).zeroFree hmem
  unfold Machine.checkText
  rw [if_neg hzero, isEmpty_ofNames, show (ofNames place).isText = true from isText_ofChars _]
  rfl

end FilePath

namespace Machine

variable {m : Machine} {p : FilePath} {place : Location} {name : String}

open FileTree FilePath

/-! ### Looking up a location -/

/-- The location that the steps of a path lead to, however long its text is. -/
def LeadsTo (m : Machine) (p : FilePath) (place : Location) : Prop :=
  checkText p = .ok () ∧
    m.files.walk (fun _ => true) maxLinks (m.origin p) (steps p.text) = .ok place

instance (m : Machine) (p : FilePath) (place : Location) : Decidable (m.LeadsTo p place) :=
  inferInstanceAs (Decidable (_ ∧ _))

theorem LeadsTo.unique {place' : Location} (h : m.LeadsTo p place) (h' : m.LeadsTo p place') :
    place = place' := by
  have heq := h.2.symm.trans h'.2
  exact Except.ok.inj heq

theorem LeadsTo.canonical_eq {q : FilePath} (h : m.LeadsTo p place) (hq : m.canonical p = .ok q) :
    q = .ofNames place := by
  obtain ⟨htext, found, rfl, hfound⟩ := canonical_eq_ok_iff.1 hq
  have hleads : m.LeadsTo p found := ⟨htext, walk_of_fits (fun _ _ _ => rfl) hfound⟩
  rw [hleads.unique h]

theorem LeadsTo.isOpen_origin (hsound : m.files.IsSound) (h : m.LeadsTo p place) :
    m.files.IsOpen (m.origin p) := by
  have hne : p.text ≠ "" := by
    intro hempty
    have htext := h.1
    unfold checkText at htext
    rw [FilePath.text_eq_empty_iff.1 hempty] at htext
    simp at htext
  exact hsound.isOpen (entryAt_of_walk (steps_ne_nil hne) h.2)

theorem exists_leadsTo_of_canonical {q : FilePath} (hq : m.canonical p = .ok q) :
    ∃ place, m.LeadsTo p place := by
  obtain ⟨htext, place, -, hwalk⟩ := canonical_eq_ok_iff.1 hq
  exact ⟨place, htext, walk_of_fits (fun _ _ _ => rfl) hwalk⟩

theorem isFile_iff (hopen : m.files.IsOpen (m.origin p)) :
    m.isFile p = true ↔
      ∃ place, m.resolve p = .ok place ∧ m.files.IsFileAt place := by
  unfold isFile
  constructor
  · intro h
    split at h
    · next hkind =>
      obtain ⟨place, hplace⟩ := exists_resolve_of_kindOf hkind
      exact ⟨place, hplace, exists_content_of_kindOf hopen hplace hkind⟩
    · cases h
  · rintro ⟨place, hplace, content, hcontent⟩
    unfold kindOf
    rw [hplace]
    simp [hcontent]

theorem origin_ofNames (m : Machine) (place : Location) : m.origin (ofNames place) = [] :=
  if_pos (isAbsolute_ofNames place)

/-- The path of a location leads down to it, and goes on from there. -/
theorem resolve_ofNames_iff (hsound : m.files.IsSound) {found : Location}
    (hplace : m.files.entryAt place = some .directory) {below : Location}
    (hne : place ++ below ≠ [])
    (hnames : ∀ name ∈ place ++ below, IsFileName name) :
    m.resolve (ofNames (place ++ below)) = .ok found ↔
      pathSize (place ++ below) ≤ maxPathSize ∧
        m.files.walk (fun _ => true) maxLinks place below = .ok found := by
  have hplaceNames : ∀ name ∈ place, IsFileName name := by
    intro name hname
    exact hnames name (List.mem_append_left _ hname)
  rw [resolve_eq_ok_iff, checkText_ofNames hnames, size_ofNames hne,
    steps_ofNames hne hnames, origin_ofNames,
    walk_down maxLinks (hsound.isOpen hplace) hplaceNames (fun _ _ => rfl) below]
  simp

/-- Under its path from the root, a name in a directory is found to be a regular file if it is one,
    or a link to one, and if the path is short enough to be looked up. -/
theorem isFile_child_iff (hsound : m.files.IsSound)
    (hplace : m.files.entryAt place = some .directory)
    (hname : (m.files.entryAt (place ++ [name])).isSome = true) :
    m.isFile (ofNames (place ++ [name])) = true ↔
      m.files.HoldsFile place name ∧ pathSize (place ++ [name]) ≤ maxPathSize := by
  have hnames := hsound.names hname
  have hroot : m.files.IsOpen (m.origin (ofNames (place ++ [name]))) := by
    rw [origin_ofNames]
    exact (hsound.isOpen hplace).nil
  rw [isFile_iff hroot, holdsFile_iff hplace (hnames name (by simp))]
  constructor
  · intro ⟨found, hfound, hfile⟩
    obtain ⟨hsize, hwalk⟩ := (resolve_ofNames_iff hsound hplace (by simp) hnames).1 hfound
    exact ⟨⟨found, hwalk, hfile⟩, hsize⟩
  · intro ⟨⟨found, hwalk, hfile⟩, hsize⟩
    have hfound := (resolve_ofNames_iff hsound hplace (by simp) hnames).2 ⟨hsize, hwalk⟩
    exact ⟨found, hfound, hfile⟩

theorem resolve_ofNames (hsound : m.files.IsSound)
    (hplace : m.files.entryAt place = some .directory) (hsize : pathSize place ≤ maxPathSize) :
    m.resolve (ofNames place) = .ok place := by
  by_cases hne : place = []
  · rw [hne] at hplace ⊢
    apply resolve_eq_ok_iff.2
    refine ⟨rfl, by decide, ?_⟩
    show m.files.walk _ maxLinks [] ["."] = _
    unfold maxLinks
    rw [walk, walkWith, if_neg (by simp [hplace]), if_pos rfl, walkWith]
  · have hself : m.resolve (ofNames (place ++ [])) = .ok place := by
      have hnames := hsound.names (by rw [hplace]; rfl)
      rw [← List.append_nil place] at hne hnames hsize
      exact (resolve_ofNames_iff hsound hplace hne hnames).2 ⟨hsize, rfl⟩
    rwa [List.append_nil] at hself

theorem pathSize_le_of_resolve {found : Location} (h : m.resolve (ofNames place) = .ok found) :
    pathSize place ≤ maxPathSize := by
  by_cases hne : place = []
  · rw [hne]
    exact Nat.zero_le _
  · obtain ⟨-, hsize, -⟩ := resolve_eq_ok_iff.1 h
    rwa [size_ofNames hne] at hsize

/-- The directory at a location is listed under its path from the root, if that is short enough to
    be looked up. -/
theorem names?_ofNames_iff (hsound : m.files.IsSound)
    (hplace : m.files.entryAt place = some .directory) {names : List String} :
    m.names? (ofNames place) = some names ↔
      pathSize place ≤ maxPathSize ∧ names = m.files.childNames place := by
  unfold names?
  constructor
  · intro h
    cases hfound : m.resolve (ofNames place) with
    | error e =>
      rw [hfound] at h
      cases h
    | ok found =>
      have hsize := pathSize_le_of_resolve hfound
      rw [resolve_ofNames hsound hplace hsize] at h
      simp only [if_pos hplace] at h
      exact ⟨hsize, (Option.some.inj h).symm⟩
  · rintro ⟨hsize, rfl⟩
    rw [resolve_ofNames hsound hplace hsize]
    exact if_pos hplace

/-- A directory is at its own canonical path. -/
theorem canonical_ofNames (hsound : m.files.IsSound)
    (hplace : m.files.entryAt place = some .directory) (hne : place ≠ [])
    (hsize : pathSize place ≤ maxPathSize) :
    m.canonical (ofNames place) = .ok (ofNames place) := by
  have hnames := hsound.names (by rw [hplace]; rfl)
  have hfits : ∀ above, above <+: place → decide (pathSize above ≤ maxPathSize) = true := by
    intro above habove
    obtain ⟨below, rfl⟩ := habove
    rw [pathSize_append] at hsize
    apply decide_eq_true
    omega
  apply canonical_eq_ok_iff.2
  refine ⟨checkText_ofNames hnames, place, rfl, ?_⟩
  rw [origin_ofNames, steps_ofNames hne hnames]
  have hwalk := walk_down maxLinks (hsound.isOpen hplace) hnames hfits []
  rw [List.append_nil] at hwalk
  rw [hwalk]
  rfl

/-- What is not a directory is not listed. -/
theorem names?_eq_none (hsound : m.files.IsSound) (hroot : m.files.IsOpen [])
    (hreached : m.files.IsReached place) (hfile : m.files.entryAt place ≠ some .directory) :
    m.names? (ofNames place) = none := by
  rcases List.eq_nil_or_concat place with rfl | ⟨front, name, rfl⟩
  · exact absurd (hroot [] List.prefix_rfl) hfile
  · rw [List.concat_eq_append] at hreached hfile ⊢
    have hfront : m.files.entryAt front = some .directory := by
      have habove := hreached.above
      rw [List.dropLast_concat] at habove
      exact habove front List.prefix_rfl
    rcases hreached.entry with hdirectory | ⟨content, hcontent⟩
    · exact absurd hdirectory hfile
    have hnames := hsound.names (by rw [hcontent]; rfl)
    unfold names?
    cases hfound : m.resolve (ofNames (front ++ [name])) with
    | error e => rfl
    | ok found =>
      obtain ⟨-, hwalk⟩ := (resolve_ofNames_iff hsound hfront (by simp) hnames).1 hfound
      rw [walk_name hfront (hnames name (by simp)), hcontent] at hwalk
      obtain rfl := Except.ok.inj hwalk
      exact if_neg hfile

end Machine

end Hosting
