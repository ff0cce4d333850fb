import Hosting.Proofs.Lookup.ListedNames
import Hosting.Proofs.Text.Offsets
import Mathlib.Data.List.Induction

/-! # Sound trees

    A file system holds a tree in which every name is one that a file can have, and nothing is
    below anything but a directory. Then all above a directory is directories, and a walk from
    the root along the names of its location leads down to it. What a name in the directory
    stands for does not depend on how the directory was reached.

    - `IsSound`: the trees that a file system can hold.
    - `mem_childNames_iff`: the names in a directory.
    - `walk_down`, `walk_name`: walks down along the names of directories, and the last step.
    - `HoldsFile`: a name in a directory is a regular file or a link that leads to one.
    - `holdsFile_iff`: this is what one step from the directory finds.
-/

namespace Hosting

open Text VirtualPath

namespace FileTree

variable {t : FileTree} {here place : Location} {name : String}

/-! ### Sound trees -/

/-- A name that an entry of a directory can have. -/
structure IsFileName (name : String) : Prop where
  plain : IsPlain name.toList
  short : name.utf8ByteSize ≤ 255
  zeroFree : Char.ofNat 0 ∉ name.toList

instance (name : String) : Decidable (IsFileName name) :=
  decidable_of_iff (IsPlain name.toList ∧ name.utf8ByteSize ≤ 255 ∧ Char.ofNat 0 ∉ name.toList)
    ⟨fun ⟨hplain, hshort, hzero⟩ => ⟨hplain, hshort, hzero⟩,
      fun h => ⟨h.plain, h.short, h.zeroFree⟩⟩

theorem isFileName_ofList {cs : List Char} (hplain : IsPlain cs) (hshort : byteSize cs ≤ 255)
    (hzero : Char.ofNat 0 ∉ cs) : IsFileName (.ofList cs) := by
  constructor
  · rw [String.toList_ofList]
    exact hplain
  · exact hshort
  · rw [String.toList_ofList]
    exact hzero

/-- Every name in the tree is one that an entry can have, and only directories have anything
    below them. -/
structure IsSound (t : FileTree) : Prop where
  named : ∀ place ∈ t.places, ∀ name ∈ place, IsFileName name
  nested : ∀ place ∈ t.places, t.entryAt place.dropLast = some .directory

instance (t : FileTree) : Decidable t.IsSound :=
  decidable_of_iff
    ((∀ place ∈ t.places, ∀ name ∈ place, IsFileName name) ∧
      ∀ place ∈ t.places, t.entryAt place.dropLast = some .directory)
    ⟨fun ⟨hnamed, hnested⟩ => ⟨hnamed, hnested⟩, fun h => ⟨h.named, h.nested⟩⟩

theorem IsSound.names (ht : t.IsSound) (h : (t.entryAt place).isSome = true) :
    ∀ name ∈ place, IsFileName name := by
  rcases mem_places_of_entryAt h with rfl | hmem
  · intro name hname
    cases hname
  · exact ht.named place hmem

theorem IsSound.isOpen (ht : t.IsSound) (h : t.entryAt here = some .directory) :
    t.IsOpen here := by
  intro above habove
  obtain ⟨below, rfl⟩ := habove
  -- from the end, each name taken off leaves a directory
  induction below using List.reverseRecOn with
  | nil =>
    rw [List.append_nil] at h
    exact h
  | append_singleton front name ih =>
    apply ih
    rw [← List.append_assoc] at h
    rcases mem_places_of_entryAt (by rw [h]; rfl) with hnil | hmem
    · simp at hnil
    · have hdirectory := ht.nested _ hmem
      rw [List.dropLast_concat] at hdirectory
      exact hdirectory

theorem mem_childNames_iff :
    name ∈ t.childNames here ↔ (t.entryAt (here ++ [name])).isSome = true := by
  constructor
  · exact entryAt_of_mem_childNames
  · intro h
    rw [entryAt, subtree?_concat, Option.isSome_map] at h
    unfold childNames
    cases hhere : t.subtree? here with
    | none =>
      rw [hhere] at h
      cases h
    | some found =>
      rw [hhere, Option.bind_some] at h
      obtain ⟨entry, hentry, hname⟩ := List.lookup_isSome_iff.1 h
      rw [List.mem_eraseDups, eq_of_beq hname]
      exact List.mem_map_of_mem hentry

/-- The tree in the innermost of directories inside each other. -/
def within : Location → FileTree → FileTree
  | [], t => t
  | name :: rest, t => .node .directory [(name, within rest t)]

theorem entryAt_within (t : FileTree) (outer inner : Location) :
    (within outer t).entryAt (outer ++ inner) = t.entryAt inner := by
  induction outer with
  | nil => rfl
  | cons name rest ih =>
    rw [← ih, within, List.cons_append]
    unfold entryAt
    rw [subtree?, child?, children, List.lookup_cons, beq_self_eq_true]

theorem IsSound.within (ht : t.IsSound) {outer : Location}
    (houter : ∀ name ∈ outer, IsFileName name) : (within outer t).IsSound := by
  induction outer with
  | nil => exact ht
  | cons name rest ih =>
    have hrest := ih fun other hother => houter other (List.mem_cons_of_mem _ hother)
    have hplaces (place : Location) (hplace : place ∈ (FileTree.within (name :: rest) t).places) :
        ∃ below, place = name :: below ∧
          (below = [] ∨ below ∈ (FileTree.within rest t).places) := by
      rw [FileTree.within, places, placesBelow, placesBelow, List.append_nil] at hplace
      rcases List.mem_cons.1 hplace with rfl | hmem
      · exact ⟨[], rfl, .inl rfl⟩
      · obtain ⟨below, hbelow, rfl⟩ := List.mem_map.1 hmem
        exact ⟨below, rfl, .inr hbelow⟩
    constructor
    · intro place hplace other hother
      obtain ⟨below, rfl, hbelow⟩ := hplaces place hplace
      rcases List.mem_cons.1 hother with rfl | hother
      · exact houter _ List.mem_cons_self
      · rcases hbelow with rfl | hbelow
        · cases hother
        · exact hrest.named below hbelow other hother
    · intro place hplace
      obtain ⟨below, rfl, hbelow⟩ := hplaces place hplace
      rcases List.eq_nil_or_concat below with rfl | ⟨front, last, rfl⟩
      · rfl
      · rcases hbelow with hnil | hbelow
        · simp at hnil
        · have hnested := hrest.nested _ hbelow
          rw [List.concat_eq_append, List.dropLast_concat] at hnested
          rw [List.concat_eq_append, ← List.cons_append, List.dropLast_concat, ← hnested]
          unfold entryAt
          rw [subtree?, child?, FileTree.within, children, List.lookup_cons, beq_self_eq_true]

/-! ### Walks down -/

theorem mem_joined {c d : Char} {runs : List (List Char)} (h : d ∈ joined c runs) :
    d = c ∨ ∃ run ∈ runs, d ∈ run := by
  induction runs with
  | nil => cases h
  | cons run rest ih =>
    cases rest with
    | nil => exact .inr ⟨run, List.mem_cons_self, h⟩
    | cons next rest =>
      rw [joined] at h
      · rcases List.mem_append.1 h with hrun | hrest
        · exact .inr ⟨run, List.mem_cons_self, hrun⟩
        · rcases List.mem_cons.1 hrest with hc | hrest
          · exact .inl hc
          · rcases ih hrest with hc | ⟨other, hother, hd⟩
            · exact .inl hc
            · exact .inr ⟨other, List.mem_cons_of_mem _ hother, hd⟩
      · exact List.cons_ne_nil next rest

/-- Every path asks for a step, if only for `.`. -/
theorem steps_ne_nil {path : String} (h : path ≠ "") : steps path ≠ [] := by
  have hne : path.toList ≠ [] := fun hnil => h (String.toList_eq_nil_iff.1 hnil)
  unfold steps
  split
  · simp
  · next hslash =>
    -- the last character is in one of the names
    obtain ⟨c, hlast⟩ : ∃ c, path.toList.getLast? = some c :=
      ⟨_, List.getLast?_eq_some_getLast hne⟩
    have hc := List.mem_of_getLast? hlast
    rw [← joined_pieces '/' path.toList] at hc
    rcases mem_joined hc with rfl | ⟨run, hrun, hmem⟩
    · exact absurd hlast hslash
    · have hcounts : run ∈ (segments path.toList).filter (· ≠ []) := by
        apply List.mem_filter.2
        exact ⟨hrun, by simpa using List.ne_nil_of_mem hmem⟩
      unfold FileTree.names
      intro hnil
      rw [List.map_eq_nil_iff.1 hnil] at hcounts
      cases hcounts

/-- A walk goes on from a directory. -/
theorem entryAt_of_walk {fits : Location → Bool} {links : Nat} {steps : List String}
    (hne : steps ≠ []) (h : t.walk fits links here steps = .ok place) :
    t.entryAt here = some .directory := by
  have hfirst {jump : Location → List String → Except OsError Location}
      (h : t.walkWith fits jump here steps = .ok place) : t.entryAt here = some .directory := by
    cases steps with
    | nil => exact absurd rfl hne
    | cons step rest =>
      rw [walkWith] at h
      split at h
      · cases h
      · next hdirectory => exact Classical.not_not.1 hdirectory
  cases links with
  | zero => exact hfirst h
  | succ links => exact hfirst h

theorem pathSize_append (place below : Location) :
    pathSize (place ++ below) = pathSize place + pathSize below := by
  induction place with
  | nil => exact (Nat.zero_add _).symm
  | cons name rest ih =>
    rw [List.cons_append, pathSize, pathSize, ih]
    omega

/-- Where the target of a link in a directory begins. -/
def linkStart (dir : Location) (target : String) : Location :=
  if target.toList.head? = some '/' then [] else dir

/-- From a directory, a walk goes on where a name in it leads. -/
theorem walkWith_name {fits : Location → Bool}
    {jump : Location → List String → Except OsError Location}
    (hhere : t.entryAt here = some .directory) (hname : IsFileName name)
    (hfits : fits (here ++ [name]) = true) (rest : List String) :
    t.walkWith fits jump here (name :: rest) =
      match t.entryAt (here ++ [name]) with
      | none => .error .notFound
      | some (.link target) => jump (linkStart here target) (steps target ++ rest)
      | some _ => t.walkWith fits jump (here ++ [name]) rest := by
  have hdot : name ≠ "." := by
    rintro rfl
    exact hname.plain.ne_here rfl
  have hup : name ≠ ".." := by
    rintro rfl
    exact hname.plain.ne_up rfl
  have hlimit : ¬ (decide (255 < name.utf8ByteSize) || !fits (here ++ [name])) = true := by
    rw [hfits]
    simpa using hname.short
  rw [walkWith, if_neg (by simp [hhere]), if_neg hdot, if_neg hup, if_neg hlimit]
  rfl

/-- Along the names of directories that fit, a walk goes down one by one. -/
theorem walkWith_down {fits : Location → Bool}
    {jump : Location → List String → Except OsError Location} (hopen : t.IsOpen (here ++ place))
    (hnames : ∀ name ∈ place, IsFileName name)
    (hfits : ∀ above, above <+: here ++ place → fits above = true) (rest : List String) :
    t.walkWith fits jump here (place ++ rest) = t.walkWith fits jump (here ++ place) rest := by
  induction place generalizing here with
  | nil => rw [List.append_nil, List.nil_append]
  | cons name place ih =>
    have hsplit : here ++ name :: place = here ++ [name] ++ place := List.append_cons ..
    have hhere : t.entryAt here = some .directory := hopen here (List.prefix_append ..)
    have hbelow : here ++ [name] <+: here ++ name :: place := by
      rw [hsplit]
      exact List.prefix_append ..
    rw [List.cons_append, walkWith_name hhere (hnames name List.mem_cons_self) (hfits _ hbelow),
      hopen _ hbelow, hsplit]
    apply ih
    · rw [← hsplit]
      exact hopen
    · intro other hother
      exact hnames other (List.mem_cons_of_mem _ hother)
    · rw [← hsplit]
      exact hfits

theorem walk_down {fits : Location → Bool} (links : Nat) (hopen : t.IsOpen place)
    (hnames : ∀ name ∈ place, IsFileName name)
    (hfits : ∀ above, above <+: place → fits above = true) (rest : List String) :
    t.walk fits links [] (place ++ rest) = t.walk fits links place rest := by
  have hfits' : ∀ above, above <+: [] ++ place → fits above = true := hfits
  have hdown (jump : Location → List String → Except OsError Location) :
      t.walkWith fits jump [] (place ++ rest) = t.walkWith fits jump ([] ++ place) rest :=
    walkWith_down hopen hnames hfits' rest
  cases links with
  | zero => exact hdown _
  | succ links => exact hdown _

/-- Across at most forty links, one of which may be what stands in the directory. -/
theorem walk_name (hhere : t.entryAt here = some .directory) (hname : IsFileName name) :
    t.walk (fun _ => true) maxLinks here [name] =
      match t.entryAt (here ++ [name]) with
      | none => .error .notFound
      | some (.link target) =>
        t.walk (fun _ => true) (maxLinks - 1) (linkStart here target) (steps target)
      | some _ => .ok (here ++ [name]) := by
  have hlinks : maxLinks = maxLinks - 1 + 1 := rfl
  rw [hlinks, walk, walkWith_name hhere hname rfl]
  cases t.entryAt (here ++ [name]) with
  | none => rfl
  | some entry =>
    cases entry with
    | directory => rfl
    | file content => rfl
    | link target => simp only [List.append_nil, Nat.add_sub_cancel]

/-! ### Files in a directory -/

/-- A regular file stands at the location. -/
def IsFileAt (t : FileTree) (place : Location) : Prop :=
  ∃ content, t.entryAt place = some (.file content)

instance (t : FileTree) (place : Location) : Decidable (t.IsFileAt place) :=
  match h : t.entryAt place with
  | some (.file content) => .isTrue ⟨content, h⟩
  | some .directory | some (.link _) | none => .isFalse (by simp [IsFileAt, h])

/-- A link in the directory with this target leads to a regular file across at most forty links,
    of which it is the first. -/
def LinksToFile (t : FileTree) (dir : Location) (target : String) : Prop :=
  ∃ place, t.walk (fun _ => true) (maxLinks - 1) (linkStart dir target) (steps target) = .ok place ∧
    t.IsFileAt place

instance (t : FileTree) (dir : Location) (target : String) : Decidable (t.LinksToFile dir target) :=
  match h : t.walk (fun _ => true) (maxLinks - 1) (linkStart dir target) (steps target) with
  | .ok place => decidable_of_iff (t.IsFileAt place) (by simp [LinksToFile, h])
  | .error _ => .isFalse (by simp [LinksToFile, h])

/-- The name in the directory is a regular file, or a link that leads to one. -/
def HoldsFile (t : FileTree) (dir : Location) (name : String) : Prop :=
  t.IsFileAt (dir ++ [name]) ∨
    ∃ target, t.entryAt (dir ++ [name]) = some (.link target) ∧ t.LinksToFile dir target

instance (t : FileTree) (dir : Location) (name : String) : Decidable (t.HoldsFile dir name) :=
  match h : t.entryAt (dir ++ [name]) with
  | some (.link target) =>
    decidable_of_iff (t.LinksToFile dir target) (by simp [HoldsFile, IsFileAt, h])
  | some .directory | some (.file _) | none =>
    decidable_of_iff (t.IsFileAt (dir ++ [name])) (by simp [HoldsFile, h])

theorem HoldsFile.isSome_entryAt (h : t.HoldsFile here name) :
    (t.entryAt (here ++ [name])).isSome = true := by
  rcases h with ⟨content, hentry⟩ | ⟨target, hentry, -⟩
  · rw [hentry]
    rfl
  · rw [hentry]
    rfl

theorem holdsFile_iff (hhere : t.entryAt here = some .directory) (hname : IsFileName name) :
    t.HoldsFile here name ↔
      ∃ place, t.walk (fun _ => true) maxLinks here [name] = .ok place ∧ t.IsFileAt place := by
  rw [walk_name hhere hname]
  unfold HoldsFile LinksToFile IsFileAt
  cases hentry : t.entryAt (here ++ [name]) with
  | none => simp
  | some entry => cases entry <;> simp [hentry]

end FileTree

end Hosting
