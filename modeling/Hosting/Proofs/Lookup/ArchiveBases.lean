import Hosting.BaseResource
import Hosting.Proofs.Host.Runs
import Hosting.Proofs.Path.Canonical
import Hosting.Proofs.Path.FileNames
import Hosting.Proofs.Text.LetterCase

/-! # Archive bases

    An archive base is a regular file with an archive extension, however its letters are written.
    Its files are those of the directory beside it that has the name of the archive without the
    extension.

    - `IsArchiveFile`: the path to the archive that a reference leads to.
    - `establish_eq_archive_iff`: the references that give an archive base.
    - `StandsBeside`: another name in the same directory.
    - `standsBeside_withFileName`: the stem of a name in place of the name.
    - `establish_archive`: the directory of an archive base stands beside the archive, so that it
      is neither the directory of the archive nor above it.
-/

namespace Hosting.BaseResource

open Text VirtualPath

variable {m : Machine} {context raw : String} {deploy path archive extracted : FilePath}

/-! ### What is established -/

/-- The path that a raw reference stands for. -/
def referenced (raw : String) (deploy : FilePath) : FilePath :=
  deploy.join (.ofChars (withoutScheme (strip isBlank raw.toList)))

theorem isArchivePath_iff :
    isArchivePath path = true ↔ ∃ extension, path.extensionText? = some extension ∧
      ∃ known ∈ archiveExtensions, List.Forall₂ SameLetter extension known.toList := by
  unfold isArchivePath
  cases path.extensionText? with
  | none => simp
  | some extension => simp only [List.any_eq_true, sameLetters_iff_forall₂, Option.some.injEq,
      exists_eq_left']

/-- The path leads to a regular file with an archive extension, and the archive is the canonical
    path of that file. -/
structure IsArchiveFile (m : Machine) (path archive : FilePath) : Prop where
  isFile : m.kindOf path = .ok .file
  canonical : m.canonical path = .ok archive
  /-- A file is what there is, once the place where the path begins is open. -/
  place : ∃ place, m.resolve path = .ok place ∧ archive = .ofNames place ∧
    (m.files.IsOpen (m.origin path) → ∃ content, m.files.entryAt place = some (.file content))
  extension : ∃ extension, archive.extensionText? = some extension ∧
    ∃ known ∈ archiveExtensions, List.Forall₂ SameLetter extension known.toList

theorem isArchiveFile_of_canonical (hkind : m.kindOf path = .ok .file)
    (hcanonical : m.canonical path = .ok archive) (harchive : isArchivePath archive = true) :
    IsArchiveFile m path archive := by
  obtain ⟨place, hplace⟩ := Machine.exists_resolve_of_kindOf hkind
  have hofNames := Machine.canonical_eq_ofNames hplace hcanonical
  refine ⟨hkind, hcanonical, ⟨place, hplace, hofNames, ?_⟩, isArchivePath_iff.1 harchive⟩
  intro hopen
  exact Machine.exists_content_of_kindOf hopen hplace hkind

/-- Every reference to a file with an archive extension gives an archive base, and nothing else
    does. -/
theorem establish_eq_archive_iff :
    establish m context raw deploy = .ok (.archive archive extracted) ↔
      strip isBlank raw.toList ≠ [] ∧ IsArchiveFile m (referenced raw deploy) archive ∧
        extracted = archive.withFileName (archive.stem?.getD []) := by
  unfold establish
  constructor
  · intro h
    simp only at h
    -- every way but one ends with an error or with a directory
    split at h
    · cases h
    next hreference =>
    split at h
    · cases h
    next kind hkind =>
    split at h
    · cases h
    next found hcanonical =>
    split at h
    · cases h
    next hfile =>
    split at h
    · next harchive =>
      obtain ⟨rfl, rfl⟩ := BaseResource.archive.inj (Except.ok.inj h)
      have hkind : m.kindOf (referenced raw deploy) = .ok .file := by
        change m.kindOf _ = .ok kind at hkind
        cases kind with
        | file => exact hkind
        | directory => exact absurd rfl hfile
      exact ⟨hreference, isArchiveFile_of_canonical hkind hcanonical harchive, rfl⟩
    · cases h
  · rintro ⟨hreference, hfile, rfl⟩
    have hkind := hfile.isFile
    have hcanonical := hfile.canonical
    unfold referenced at hkind hcanonical
    have harchive := isArchivePath_iff.2 hfile.extension
    simp only [if_neg hreference, hkind, hcanonical, harchive, reduceCtorEq, if_false, if_true]

/-! ### Another name in the same directory -/

/-- The other path has the given name in the directory of the first. Both names lead down and are not
    the same. -/
def StandsBeside (p other : FilePath) (another : List PathChar) : Prop :=
  ∃ above name, p.components = above ++ [.name name] ∧
    other.components = above ++ [.name another] ∧ FilePath.IsPlainName name ∧
    FilePath.IsPlainName another ∧ another ≠ name

/-- What stands beside a path is neither its directory nor above it, but below. -/
theorem StandsBeside.below {p other d : FilePath} {another : List PathChar}
    (h : StandsBeside p other another) (hd : other.components <+: d.components) :
    p.components.dropLast <+: d.components ∧ d.components ≠ p.components.dropLast := by
  obtain ⟨above, name, hp, hother, -⟩ := h
  rw [hp, List.dropLast_concat]
  rw [hother] at hd
  refine ⟨(List.prefix_append _ _).trans hd, ?_⟩
  intro hsame
  have hlength := hd.length_le
  rw [hsame, List.length_append, List.length_singleton] at hlength
  omega

/-- The stem of a file name stands beside the file, unless it leads up or nowhere. -/
theorem standsBeside_withFileName {p : FilePath} {extension stem : List PathChar}
    (habs : p.isAbsolute = true) (hextension : p.extension? = some extension)
    (hstem : p.stem? = some stem) (hhere : stem ≠ [.char '.'])
    (hup : stem ≠ [.char '.', .char '.']) :
    StandsBeside p (p.withFileName stem) stem := by
  obtain ⟨found, hfound, hname, hne, -⟩ := FilePath.exists_stem_of_extension? hextension
  obtain rfl : found = stem := by
    rw [hfound] at hstem
    exact Option.some.inj hstem
  have hplain := FilePath.isPlainName_of_fileName? hname
  -- the stem is a part of a name, so it is plain but for the two spellings that are left aside
  have hslash : .char '/' ∉ found := fun hmem => hplain.no_slash (List.mem_append_left _ hmem)
  have hfoundPlain : FilePath.IsPlainName found := ⟨hne, hhere, hup, hslash⟩
  obtain ⟨above, hcomponents, hother⟩ := FilePath.components_withFileName habs hname hslash
  rw [FilePath.ofPiece?_of_isPlainName hfoundPlain] at hother
  exact ⟨above, _, hcomponents, hother, hplain, hfoundPlain, by simp⟩

/-! ### The directory of an archive -/

/-- The archive of a base is the canonical path of a regular file with an archive extension. Unless
    the stem of its name leads up or nowhere, its files are those of the directory of that name
    beside it. So the content root is neither the directory of the archive nor above that, and
    where it is a deploy directory or above one, the archive stands outside of that, in a
    directory above it. -/
theorem establish_archive
    (h : establish m context raw deploy = .ok (.archive archive extracted)) :
    IsArchiveFile m (referenced raw deploy) archive ∧
      ∃ stem, archive.stem? = some stem ∧ (stem ≠ [.char '.'] → stem ≠ [.char '.', .char '.'] →
        StandsBeside archive extracted stem ∧
          ∀ d : FilePath,
            (BaseResource.archive archive extracted).contentRoot.components <+: d.components →
            archive.components.dropLast <+: d.components ∧
              d.components ≠ archive.components.dropLast) := by
  obtain ⟨-, hfile, rfl⟩ := establish_eq_archive_iff.1 h
  obtain ⟨place, -, hofNames, -⟩ := hfile.place
  obtain ⟨_, htext, -⟩ := hfile.extension
  obtain ⟨extension, hextension, -⟩ := Option.bind_eq_some_iff.1 htext
  obtain ⟨stem, hstem, -⟩ := FilePath.exists_stem_of_extension? hextension
  have habs : archive.isAbsolute = true := by
    rw [hofNames]
    simp [FilePath.ofNames, FilePath.ofChars, FilePath.isAbsolute]
  refine ⟨hfile, stem, hstem, ?_⟩
  intro hhere hup
  rw [hstem, Option.getD_some]
  have hbeside := standsBeside_withFileName habs hextension hstem hhere hup
  exact ⟨hbeside, fun d hd => hbeside.below hd⟩

/-- The machine with an archive in `/srv`, and one of that name beside it. -/
def stocked : Machine :=
  Sample.machine.withFiles
    ((Sample.machine.files.put ["srv", "shop.v2.WAR"] (.file (.text "PK"))).put
      ["srv.war"] (.file (.text "PK")))

/-- A reference with blanks around it and a scheme, to an archive with two dots in its name. -/
theorem establish_archive_dotted :
    establish stocked "/A" " file:shop.v2.WAR " ⟨"/srv"⟩ =
        .ok (.archive ⟨"/srv/shop.v2.WAR"⟩ ⟨"/srv/shop.v2"⟩) ∧
      StandsBeside ⟨"/srv/shop.v2.WAR"⟩ ⟨"/srv/shop.v2"⟩ "shop.v2" ∧
      ∃ place content, FilePath.ofNames place = ⟨"/srv/shop.v2.WAR"⟩ ∧
        stocked.files.entryAt place = some (.file content) := by
  have h : establish stocked "/A" " file:shop.v2.WAR " ⟨"/srv"⟩ =
      .ok (.archive ⟨"/srv/shop.v2.WAR"⟩ ⟨"/srv/shop.v2"⟩) := by
    rfl
  obtain ⟨hfile, stem, hstem, hbeside⟩ := establish_archive h
  have hdotted : FilePath.stem? ⟨"/srv/shop.v2.WAR"⟩ = some ("shop.v2" : List PathChar) := by
    decide +kernel
  obtain rfl := Option.some.inj (hdotted.symm.trans hstem)
  obtain ⟨place, -, hofNames, hentry⟩ := hfile.place
  have hopen : stocked.files.IsOpen (stocked.origin (referenced " file:shop.v2.WAR " ⟨"/srv"⟩)) := by
    intro above habove
    have hroot : stocked.origin (referenced " file:shop.v2.WAR " ⟨"/srv"⟩) = [] := by
      decide +kernel
    rw [hroot] at habove
    rw [List.prefix_nil.1 habove]
    decide +kernel
  obtain ⟨content, hcontent⟩ := hentry hopen
  exact ⟨h, (hbeside (by decide) (by decide)).1, place, content, hofNames.symm, hcontent⟩

/-- A reference may lead out of the deploy directory, to an archive beside it with its name. The
    content root is the deploy directory then. -/
theorem establish_archive_not_apart :
    ¬ ∀ (m : Machine) (context raw : String) (deploy archive extracted : FilePath),
      establish m context raw deploy = .ok (.archive archive extracted) →
      IsArchiveFile m (referenced raw deploy) archive ∧
        (∃ another, StandsBeside archive extracted another) ∧
        ¬ (BaseResource.archive archive extracted).contentRoot.components <+:
          deploy.components := by
  intro hall
  have h : establish stocked "/A" "/srv.war" ⟨"/srv"⟩ =
      .ok (.archive ⟨"/srv.war"⟩ ⟨"/srv"⟩) := by
    rfl
  exact (hall _ _ _ _ _ _ h).2.2 List.prefix_rfl

end Hosting.BaseResource
