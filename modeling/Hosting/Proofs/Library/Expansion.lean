import Hosting.Proofs.Library.Extensions
import Hosting.Proofs.Library.Listings
import Hosting.Proofs.Library.Tokens
import Hosting.Proofs.Path.DirectPaths
import Hosting.Proofs.Text.ByteOrder

/-! # The archives of a directory

    A star stands for the archives directly inside a directory. These are the regular files
    with the extension of an archive, and the links to regular files that are named like one.
    Each is found once, under its own name behind the canonical path of the directory, and
    they come in the order of the bytes of their names.

    The path with the name behind it is looked up as it is, so an archive is passed over if
    this path is too long to be looked up. It is there all the same, and a shorter path with a
    link in it leads to it.

    - `IsExpansion`: names are those of the archives of a directory.
    - `isExpansion_of_listsArchives`: what is found under paths, said of the file tree.
    - `expand_exact`: what is listed for a path.
    - `expand_passes_over`: an archive whose path is too long.
-/

namespace Hosting.Classpath

open Text FileTree Library

variable {c : Classpath} {m : Machine} {place : Location} {names names' : List String}

/-! ### Names of archives -/

/-- In the directory at a location, the name is one of an archive whose path is short enough to be
    looked up. -/
def IsListed (c : Classpath) (t : FileTree) (place : Location) (name : String) : Prop :=
  t.HoldsFile place name ∧ c.isArchive ((FilePath.ofNames place).join ⟨name⟩) = true ∧
    pathSize (place ++ [name]) ≤ maxPathSize

instance (c : Classpath) (t : FileTree) (place : Location) :
    DecidablePred (c.IsListed t place) :=
  fun _ => inferInstanceAs (Decidable (_ ∧ _ ∧ _))

/-- The names are those of the archives directly inside the directory at a location, in the order
    of their bytes. -/
structure IsExpansion (c : Classpath) (t : FileTree) (place : Location) (names : List String) :
    Prop where
  ascending : names.Pairwise fun a b => bytes a < bytes b
  mem_iff (name : String) : name ∈ names ↔ c.IsListed t place name

/-- It is enough to look at the names in the directory. -/
theorem isExpansion_iff {t : FileTree} :
    c.IsExpansion t place names ↔
      (names.Pairwise fun a b => bytes a < bytes b) ∧ (∀ name ∈ names, c.IsListed t place name) ∧
        ∀ name ∈ t.childNames place, c.IsListed t place name → name ∈ names := by
  constructor
  · intro h
    exact ⟨h.ascending, fun name => (h.mem_iff name).1, fun name _ => (h.mem_iff name).2⟩
  · intro ⟨hascending, hlisted, hall⟩
    refine ⟨hascending, fun name => ⟨hlisted name, ?_⟩⟩
    intro h
    exact hall name (mem_childNames_iff.2 h.1.isSome_entryAt) h

instance (c : Classpath) (t : FileTree) (place : Location) (names : List String) :
    Decidable (c.IsExpansion t place names) :=
  decidable_of_iff _ isExpansion_iff.symm

/-- They are determined by the directory. -/
theorem IsExpansion.unique {t : FileTree} (h : c.IsExpansion t place names)
    (h' : c.IsExpansion t place names') : names = names' := by
  apply eq_of_ascending _ h.ascending h'.ascending
  · intro name
    rw [h.mem_iff, h'.mem_iff]
  · intro a b hab
    exact List.lt_asymm hab

theorem isExpansion_of_listsArchives (hsound : m.files.IsSound)
    (hplace : m.files.entryAt place = some .directory)
    (h : c.ListsArchives m (.ofNames place) names) : c.IsExpansion m.files place names := by
  have hplaceNames := hsound.names (by rw [hplace]; rfl)
  constructor
  · apply h.ascending.imp
    intro a b hlt
    exact bytes_lt_iff.2 hlt
  · intro name
    have hjoin (hname : (m.files.entryAt (place ++ [name])).isSome = true) :
        (FilePath.ofNames place).join ⟨name⟩ = .ofNames (place ++ [name]) :=
      FilePath.ofNames_join hplaceNames (hsound.names hname name (by simp))
    rw [h.mem_iff]
    constructor
    · intro ⟨⟨all, hall, hmem⟩, hfile, harchive⟩
      obtain ⟨-, rfl⟩ := (Machine.names?_ofNames_iff hsound hplace).1 hall
      have hname := mem_childNames_iff.1 hmem
      rw [hjoin hname] at hfile
      obtain ⟨hholds, hsize⟩ := (Machine.isFile_child_iff hsound hplace hname).1 hfile
      exact ⟨hholds, harchive, hsize⟩
    · intro ⟨hholds, harchive, hsize⟩
      have hname := hholds.isSome_entryAt
      have hfile : m.isFile ((FilePath.ofNames place).join ⟨name⟩) = true := by
        rw [hjoin hname]
        exact (Machine.isFile_child_iff hsound hplace hname).2 ⟨hholds, hsize⟩
      -- the path of the directory is shorter still
      rw [pathSize_append] at hsize
      have hnames := (Machine.names?_ofNames_iff hsound hplace).2 ⟨by omega, rfl⟩
      exact ⟨⟨_, hnames, mem_childNames_iff.2 hname⟩, hfile, harchive⟩

/-- Distinct names in a directory are at distinct places. -/
theorem IsExpansion.atDistinctPlaces (hsound : m.files.IsSound)
    (h : c.IsExpansion m.files place names) (base : FilePath) :
    AtDistinctPlaces (names.map fun name : String => ⟨base.join ⟨name⟩, .archive⟩) := by
  have hcomponents : ∀ name ∈ names,
      (base.join ⟨name⟩).components = base.components ++ [.named name.toList] := by
    intro name hmem
    have hname := ((h.mem_iff name).1 hmem).1.isSome_entryAt
    have hplain := (hsound.names hname name (by simp)).plain
    exact FilePath.components_join (FilePath.isPlainName_map_iff.2 hplain) base
  apply List.pairwise_map.2
  apply h.ascending.imp_of_mem
  intro a b ha hb hab
  apply Bool.eq_false_iff.2
  intro hsame
  have heq := FilePath.same_iff.1 hsame
  rw [hcomponents a ha, hcomponents b hb] at heq
  have hlast := List.append_cancel_left heq
  simp only [List.cons.injEq, FilePath.Component.named_inj, and_true] at hlast
  rw [String.toList_inj.1 hlast] at hab
  exact List.lt_irrefl _ hab

/-! ### What is listed -/

/-- What is listed has a name in the directory behind the path of the directory, and this path
    leads to a regular file. -/
theorem isFile_of_mem_expand {dir q : FilePath} {l : Library} (hq : m.canonical dir = .ok q)
    (h : l ∈ c.expand m dir) : m.isFile l.path = true := by
  obtain ⟨names, hnames, hexpand⟩ := (c.listsArchives_expand m dir).2 q hq
  rw [hexpand] at h
  obtain ⟨name, hmem, rfl⟩ := List.mem_map.1 h
  exact ((hnames.mem_iff name).1 hmem).2.1

theorem expand_eq_nil {dir : FilePath} (hsound : m.files.IsSound)
    (hnone : ∀ place, m.LeadsTo dir place → m.files.entryAt place ≠ some .directory) :
    c.expand m dir = [] := by
  unfold expand
  cases hq : m.canonical dir with
  | error e => rfl
  | ok q =>
    -- the path leads to a file, and the canonical path of that has no names in it
    obtain ⟨place, hleads⟩ := Machine.exists_leadsTo_of_canonical hq
    obtain rfl := hleads.canonical_eq hq
    have hopen := hleads.isOpen_origin hsound
    have hreached := isReached_of_walk hopen hleads.2
    have hnames := Machine.names?_eq_none hsound hopen.nil hreached (hnone place hleads)
    simp only [hnames, Option.getD_none, List.mergeSort_nil, List.map_nil, List.filter_nil]

/-- For a path to a directory the archives in it are listed, each once, behind the canonical path
    of the directory. Where that is too long there is none, and then nothing is listed, and nor is
    anything for a path that leads nowhere or not to a directory. -/
theorem expand_exact (c : Classpath) (m : Machine) (hsound : m.files.IsSound) (dir : FilePath) :
    (∀ place, m.LeadsTo dir place → m.files.entryAt place = some .directory →
      (∀ q, m.canonical dir = .ok q → q = .ofNames place ∧
        ∃ names, c.IsExpansion m.files place names ∧
          c.expand m dir = names.map (fun name : String => ⟨q.join ⟨name⟩, .archive⟩) ∧
          AtDistinctPlaces (c.expand m dir)) ∧
        ∀ e, m.canonical dir = .error e → c.expand m dir = []) ∧
      ((∀ place, m.LeadsTo dir place → m.files.entryAt place ≠ some .directory) →
        c.expand m dir = []) := by
  obtain ⟨herror, hok⟩ := c.listsArchives_expand m dir
  constructor
  · intro place hleads hplace
    refine ⟨?_, herror⟩
    intro q hq
    obtain rfl := hleads.canonical_eq hq
    obtain ⟨names, hnames, hexpand⟩ := hok _ hq
    have hexpansion := isExpansion_of_listsArchives hsound hplace hnames
    refine ⟨rfl, names, hexpansion, hexpand, ?_⟩
    rw [hexpand]
    exact hexpansion.atDistinctPlaces hsound _
  · intro hnone
    exact expand_eq_nil hsound hnone

/-- The archives on the shelf, one of them a link, and a file in their place. -/
theorem expand_exact_shelf :
    default.expand shelf ⟨"ext/"⟩ =
        [⟨⟨"/srv/ext/alpha.JAR"⟩, .archive⟩, ⟨⟨"/srv/ext/mid.zip"⟩, .archive⟩,
          ⟨⟨"/srv/ext/zeta.jar"⟩, .archive⟩] ∧
      default.expand shelf ⟨"ext/zeta.jar"⟩ = [] := by
  have hsound : shelf.files.IsSound := by decide +kernel
  constructor
  · obtain ⟨hdirectory, -⟩ := expand_exact default shelf hsound ⟨"ext/"⟩
    obtain ⟨hexact, -⟩ := hdirectory ["srv", "ext"] (by decide +kernel) (by decide +kernel)
    obtain ⟨-, names, hnames, hexpand, -⟩ := hexact ⟨"/srv/ext"⟩ (by decide +kernel)
    have hlisted : default.IsExpansion shelf.files ["srv", "ext"]
        ["alpha.JAR", "mid.zip", "zeta.jar"] := by
      decide +kernel
    rw [hexpand, hnames.unique hlisted]
    decide +kernel
  · apply (expand_exact default shelf hsound ⟨"ext/zeta.jar"⟩).2
    intro place hleads
    have hfile : shelf.LeadsTo ⟨"ext/zeta.jar"⟩ ["srv", "ext", "zeta.jar"] := by
      decide +kernel
    rw [hleads.unique hfile]
    decide +kernel

/-! ### A path that is too long -/

/-- A name of 250 letters. -/
def longName : String :=
  .ofList (List.replicate 250 'd')

/-- An archive with almost the same name. -/
def longArchive : String :=
  .ofList (List.replicate 250 'd' ++ ".jar".toList)

/-- The location of a directory whose path is still short enough. -/
def depths : Location :=
  List.replicate 16 longName

/-- A machine with a single file, the archive in the depths. -/
def deep : Machine where
  files := within depths (.node .directory [(longArchive, .node (.file (.text "PK")) [])])
  workingDirectory := []
  dataHome := ⟨"/home"⟩

theorem isFileName_longName : IsFileName longName :=
  isFileName_ofList (by decide +kernel) (by decide +kernel) (by decide +kernel)

theorem isFileName_longArchive : IsFileName longArchive :=
  isFileName_ofList (by decide +kernel) (by decide +kernel) (by decide +kernel)

theorem isSound_deep : deep.files.IsSound := by
  apply IsSound.within
  · constructor
    · intro place hplace name hname
      obtain rfl : place = [longArchive] := by simpa [places, placesBelow] using hplace
      rw [List.mem_singleton.1 hname]
      exact isFileName_longArchive
    · intro place hplace
      obtain rfl : place = [longArchive] := by simpa [places, placesBelow] using hplace
      rfl
  · intro name hname
    rw [List.eq_of_mem_replicate hname]
    exact isFileName_longName

theorem pathSize_depths : pathSize depths = 4016 := by
  decide +kernel

theorem entryAt_depths (rest : Location) :
    deep.files.entryAt (depths ++ rest) =
      (FileTree.node .directory [(longArchive, .node (.file (.text "PK")) [])]).entryAt rest :=
  entryAt_within ..

theorem isArchive_longArchive :
    default.isArchive ((FilePath.ofNames depths).join ⟨longArchive⟩) = true := by
  have hplain := FilePath.isPlainName_map_iff.2 isFileName_longArchive.plain
  have hstem : List.replicate 250 'd' ≠ [] := List.cons_ne_nil 'd' (List.replicate 249 'd')
  refine isArchive_iff.2 ⟨_, FilePath.fileName?_join hplain _, "jar", ?_⟩
  refine ⟨by decide, by decide, by decide, ?_⟩
  exact endsIn_map_iff.2
    ⟨List.replicate 250 'd', "jar".toList, String.toList_ofList, hstem, by decide⟩

/-- Without the bound on the size of paths, the archives in a directory are not all listed. -/
theorem expand_passes_over :
    ¬ ∀ (c : Classpath) (m : Machine) (dir : FilePath) (place : Location) (name : String),
      m.files.IsSound → m.canonical dir = .ok (.ofNames place) →
      m.files.entryAt place = some .directory → m.files.HoldsFile place name →
      c.isArchive ((FilePath.ofNames place).join ⟨name⟩) = true →
      ⟨(FilePath.ofNames place).join ⟨name⟩, .archive⟩ ∈ c.expand m dir := by
  intro hall
  have hdepths : deep.files.entryAt depths = some .directory := by
    have h := entryAt_depths []
    rw [List.append_nil] at h
    exact h
  have hentry : deep.files.entryAt (depths ++ [longArchive]) = some (.file (.text "PK")) := by
    rw [entryAt_depths]
    simp [entryAt, subtree?, child?, children, entry]
  have hcanonical : deep.canonical (.ofNames depths) = .ok (.ofNames depths) := by
    apply Machine.canonical_ofNames isSound_deep hdepths (by decide)
    rw [pathSize_depths]
    decide
  have hmem := hall default deep (.ofNames depths) depths longArchive isSound_deep hcanonical
    hdepths (.inl ⟨_, hentry⟩) isArchive_longArchive
  have hfile := isFile_of_mem_expand hcanonical hmem
  rw [FilePath.ofNames_join (isSound_deep.names (by rw [hdepths]; rfl)) isFileName_longArchive]
    at hfile
  -- the path is looked up as it is, which is too long
  obtain ⟨-, hsize⟩ :=
    (Machine.isFile_child_iff isSound_deep hdepths (by rw [hentry]; rfl)).1 hfile
  rw [pathSize_append, pathSize_depths] at hsize
  revert hsize
  decide +kernel

end Hosting.Classpath
