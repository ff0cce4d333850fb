import Hosting.Classpath
import Hosting.Proofs.Path.FileNames
import Hosting.Proofs.Text.LetterCase

/-! # Archive extensions

    The extensions of archives are configured, with or without dots before them and in letters of
    either case. A file name is compared by what follows its last dot. So a configured extension
    that has a dot inside is not found at the end of any name, and names that end in it are taken
    for archives only if what follows its last dot is configured as well.

    - `EndsIn`: names that end in a dot and an extension.
    - `isArchive_iff`: the configured extensions that count, for every path.
    - `honours_extensions_iff`: the configurations all of whose extensions count.
    - `extension_not_honoured`: an extension with a dot inside.
-/

namespace Hosting

open Text VirtualPath

/-! ### Characters without case -/

namespace Text

/-- What is no letter stands for itself among small letters. -/
theorem mem_lowercase_iff {d : Char} (hsmall : ¬ (97 ≤ d.toNat ∧ d.toNat ≤ 122))
    (hlarge : ¬ (65 ≤ d.toNat ∧ d.toNat ≤ 90)) {cs : List Char} : d ∈ lowercase cs ↔ d ∈ cs := by
  unfold lowercase
  rw [List.mem_map]
  constructor
  · intro h
    obtain ⟨c, hc, heq⟩ := h
    rw [← ((toLower_eq_iff hsmall).1 heq).1]
    exact hc
  · intro h
    exact ⟨d, h, (toLower_eq_iff hsmall).2 ⟨rfl, hlarge⟩⟩

theorem dot_mem_lowercase_iff {cs : List Char} : '.' ∈ lowercase cs ↔ '.' ∈ cs :=
  mem_lowercase_iff (by decide) (by decide)

theorem slash_mem_lowercase_iff {cs : List Char} : '/' ∈ lowercase cs ↔ '/' ∈ cs :=
  mem_lowercase_iff (by decide) (by decide)

end Text

namespace FilePath

theorem extensionOf_eq_some_iff {name extension : List PathChar} :
    extensionOf name = some extension ↔
      ∃ front, name = front ++ .char '.' :: extension ∧ front ≠ [] ∧ .char '.' ∉ extension := by
  constructor
  · intro h
    exact ⟨stemOf name, eq_append_extension h⟩
  · intro h
    obtain ⟨front, hname, hfront, hdot⟩ := h
    have hsplit := splitLastDot_eq_some_iff.2 ⟨hname, hdot⟩
    obtain ⟨c, rest, hcons⟩ := List.exists_cons_of_ne_nil hfront
    unfold extensionOf
    rw [hsplit, hcons]

/-- The extension of a path is a text if its name ends in a dot and that text. -/
theorem extensionText?_eq_some_iff {p : FilePath} {extension : List Char} :
    p.extensionText? = some extension ↔ ∃ name, p.fileName? = some name ∧
      ∃ front, name = front ++ .char '.' :: extension.map .char ∧ front ≠ [] ∧
        '.' ∉ extension := by
  unfold extensionText? extension?
  simp only [Option.bind_eq_some_iff, extensionOf_eq_some_iff, PathChar.text?_eq_some_iff]
  constructor
  · rintro ⟨_, ⟨name, hname, front, hsplit, hfront, hdot⟩, rfl⟩
    exact ⟨name, hname, front, hsplit, hfront, fun hmem => hdot (PathChar.char_mem_map.2 hmem)⟩
  · rintro ⟨name, hname, front, hsplit, hfront, hdot⟩
    exact ⟨_, ⟨name, hname, front, hsplit, hfront,
      fun hmem => hdot (PathChar.char_mem_map.1 hmem)⟩, rfl⟩

theorem fileName?_of_isPlainName {name : List PathChar} (h : IsPlainName name) :
    fileName? ⟨name⟩ = some name := by
  unfold fileName? components
  rw [componentsOf_of_isPlainName h]
  rfl

end FilePath

namespace Classpath

variable {extensions : List String} {delimiters : String} {path : FilePath}
  {name : List PathChar} {extension text : List Char}

/-! ### Names with an extension -/

/-- The name ends in a dot and the extension, in letters of either case, and something comes before
    the dot. -/
def EndsIn (name : List PathChar) (extension : List Char) : Prop :=
  ∃ front ending, name = front ++ .char '.' :: ending.map .char ∧ front ≠ [] ∧
    List.Forall₂ SameLetter ending extension

theorem endsIn_iff :
    EndsIn name extension ↔ ∃ front ending, name = front ++ .char '.' :: ending.map .char ∧
      front ≠ [] ∧ lowercase ending = lowercase extension := by
  unfold EndsIn
  simp only [← sameLetters_iff_forall₂, sameLetters_iff]

/-- A text that ends in an extension has texts on both sides of the dot. -/
theorem endsIn_map_iff :
    EndsIn (text.map .char) extension ↔ ∃ front ending, text = front ++ '.' :: ending ∧
      front ≠ [] ∧ lowercase ending = lowercase extension := by
  rw [endsIn_iff]
  constructor
  · rintro ⟨_, ending, htext, hfront, hcase⟩
    obtain ⟨front, rest, rfl, rfl, hrest⟩ := List.map_eq_append_iff.1 htext
    have hrest : rest = '.' :: ending := PathChar.map_char_inj.1 hrest
    exact ⟨front, ending, by rw [hrest], fun hnil => hfront (by rw [hnil]; rfl), hcase⟩
  · rintro ⟨front, ending, rfl, hfront, hcase⟩
    refine ⟨front.map .char, ending, ?_, fun hnil => hfront (List.map_eq_nil_iff.1 hnil), hcase⟩
    rw [List.map_append, List.map_cons]

/-- A name that ends in an extension ends in what that ends in. -/
theorem EndsIn.trans {last : List Char} (h : EndsIn name extension)
    (hlast : EndsIn (extension.map .char) last) : EndsIn name last := by
  obtain ⟨front, ending, hname, hfront, hcase⟩ := endsIn_iff.1 h
  obtain ⟨inner, final, hextension, -, hfinal⟩ := endsIn_map_iff.1 hlast
  -- the dot inside the extension is one in the name, too
  have hdot : lowercase ending = lowercase inner ++ '.' :: lowercase final := by
    rw [hcase, hextension]
    unfold lowercase
    rw [List.map_append, List.map_cons]
    rfl
  obtain ⟨before, after, hsplit, -, hafter⟩ := List.map_eq_append_iff.1 hdot
  obtain ⟨d, tail, hcons, hd, htail⟩ := List.map_eq_cons_iff.1 hafter
  have hd : d = '.' := ((toLower_eq_iff (by decide)).1 hd).1
  refine endsIn_iff.2 ⟨front ++ .char '.' :: before.map .char, tail, ?_, ?_, ?_⟩
  · rw [hname, hsplit, hcons, hd, List.map_append, List.map_cons, List.append_assoc,
      List.cons_append]
  · simp
  · exact htail.trans hfinal

/-- A name of one character, a dot and an extension ends in something without dots. Then so does the
    extension, if it has a dot itself. -/
theorem EndsIn.inner {c : Char} {last : List Char}
    (h : EndsIn ((c :: '.' :: extension).map .char) last) (hlast : '.' ∉ last)
    (hdot : '.' ∈ extension) (hhead : extension.head? ≠ some '.') :
    EndsIn (extension.map .char) last := by
  obtain ⟨front, ending, hname, -, hcase⟩ := endsIn_map_iff.1 h
  have hending : '.' ∉ ending := by
    rw [← dot_mem_lowercase_iff, hcase, dot_mem_lowercase_iff]
    exact hlast
  have hsplit : [c, '.'] ++ extension = front ++ '.' :: ending := hname
  rcases List.append_eq_append_iff.1 hsplit with ⟨mid, -, hextension⟩ | ⟨mid, -, hrest⟩
  · -- the last dot is in the extension
    refine endsIn_map_iff.2 ⟨mid, ending, hextension, ?_, hcase⟩
    intro hnil
    rw [hextension, hnil] at hhead
    exact hhead rfl
  · -- the last dot is in front of the extension, which has a dot itself
    cases mid with
    | nil =>
      rw [List.nil_append] at hrest
      rw [← hrest] at hhead
      exact absurd rfl hhead
    | cons d mid =>
      obtain ⟨-, hrest⟩ := List.cons.inj hrest
      rw [hrest] at hending
      exact absurd (List.mem_append_right mid hdot) hending

/-! ### Configured extensions -/

/-- An extension without the dots that are configured before it. -/
def bare (e : String) : List Char :=
  e.toList.dropWhile (· == '.')

theorem head?_bare (e : String) : (bare e).head? ≠ some '.' := by
  intro h
  have hfirst := List.head?_dropWhile_not (· == '.') e.toList
  unfold bare at h
  rw [h] at hfirst
  cases hfirst

theorem toList_storedExtension (e : String) : (storedExtension e).toList = lowercase (bare e) := by
  unfold storedExtension bare
  rw [String.toList_ofList]

theorem mem_extensions_iff {stored : String} :
    stored ∈ (ofSettings extensions delimiters).extensions ↔
      ∃ e ∈ extensions, bare e ≠ [] ∧ stored = storedExtension e := by
  have hempty (e : String) : storedExtension e ≠ "" ↔ bare e ≠ [] := by
    rw [ne_eq, ← String.toList_eq_nil_iff, toList_storedExtension]
    unfold lowercase
    rw [List.map_eq_nil_iff]
  unfold ofSettings
  rw [List.mem_filter, List.mem_map, decide_eq_true_iff]
  constructor
  · intro h
    obtain ⟨⟨e, he, hstored⟩, hne⟩ := h
    rw [← hstored] at hne
    exact ⟨e, he, (hempty e).1 hne, hstored.symm⟩
  · intro h
    obtain ⟨e, he, hne, hstored⟩ := h
    rw [hstored]
    exact ⟨⟨e, he, rfl⟩, (hempty e).2 hne⟩

/-- The extensions that count are those without a dot inside. -/
theorem isArchive_iff :
    (ofSettings extensions delimiters).isArchive path = true ↔
      ∃ name, path.fileName? = some name ∧ ∃ e ∈ extensions, bare e ≠ [] ∧ '.' ∉ bare e ∧
        EndsIn name (bare e) := by
  have hcompare (ending : List Char) (e : String) :
      sameLetters ending (storedExtension e).toList = true ↔
        lowercase ending = lowercase (bare e) := by
    rw [sameLetters_iff, toList_storedExtension, lowercase_lowercase]
  unfold isArchive
  constructor
  · intro h
    split at h
    · cases h
    · next ending hending =>
      obtain ⟨name, hname, front, hsplit, hfront, hdot⟩ :=
        FilePath.extensionText?_eq_some_iff.1 hending
      obtain ⟨stored, hstored, hcase⟩ := List.any_eq_true.1 h
      obtain ⟨e, he, hne, rfl⟩ := mem_extensions_iff.1 hstored
      have hcase := (hcompare ending e).1 hcase
      refine ⟨name, hname, e, he, hne, ?_, endsIn_iff.2 ⟨front, ending, hsplit, hfront, hcase⟩⟩
      rw [← dot_mem_lowercase_iff, ← hcase, dot_mem_lowercase_iff]
      exact hdot
  · intro h
    obtain ⟨name, hname, e, he, hne, hdot, hends⟩ := h
    obtain ⟨front, ending, hsplit, hfront, hcase⟩ := endsIn_iff.1 hends
    have hdot : '.' ∉ ending := by
      rw [← dot_mem_lowercase_iff, hcase, dot_mem_lowercase_iff]
      exact hdot
    have hextension : path.extensionText? = some ending :=
      FilePath.extensionText?_eq_some_iff.2 ⟨name, hname, front, hsplit, hfront, hdot⟩
    rw [hextension]
    exact List.any_eq_true.2
      ⟨storedExtension e, mem_extensions_iff.2 ⟨e, he, hne, rfl⟩, (hcompare ending e).2 hcase⟩

/-! ### Which configurations are honoured -/

/-- The name of the path ends in one of the configured extensions. -/
def HasEnding (extensions : List String) (path : FilePath) : Prop :=
  ∃ name, path.fileName? = some name ∧ ∃ e ∈ extensions, bare e ≠ [] ∧ EndsIn name (bare e)

/-- What follows the last dot inside the extension is configured as an extension, too. -/
def IsCovered (extensions : List String) (e : String) : Prop :=
  ∃ last ∈ extensions, bare last ≠ [] ∧ '.' ∉ bare last ∧
    EndsIn ((bare e).map .char) (bare last)

theorem hasEnding_of_isArchive (h : (ofSettings extensions delimiters).isArchive path = true) :
    HasEnding extensions path := by
  obtain ⟨name, hname, e, he, hne, -, hends⟩ := isArchive_iff.1 h
  exact ⟨name, hname, e, he, hne, hends⟩

/-- A name that ends in a covered extension ends in one that counts. -/
theorem isArchive_of_hasEnding
    (hcovered : ∀ e ∈ extensions, '.' ∈ bare e → '/' ∉ bare e → IsCovered extensions e)
    (h : HasEnding extensions path) : (ofSettings extensions delimiters).isArchive path = true := by
  obtain ⟨name, hname, e, he, hne, hends⟩ := h
  apply isArchive_iff.2
  by_cases hdot : '.' ∈ bare e
  · -- there are no slashes in a name
    have hslash : '/' ∉ bare e := by
      obtain ⟨front, ending, hsplit, -, hcase⟩ := endsIn_iff.1 hends
      rw [← slash_mem_lowercase_iff, ← hcase, slash_mem_lowercase_iff]
      intro hmem
      apply (FilePath.isPlainName_of_fileName? hname).no_slash
      rw [hsplit]
      exact List.mem_append_right front
        (List.mem_cons_of_mem _ (PathChar.char_mem_map.2 hmem))
    obtain ⟨last, hlast, hlastne, hlastdot, hinner⟩ := hcovered e he hdot hslash
    exact ⟨name, hname, last, hlast, hlastne, hlastdot, hends.trans hinner⟩
  · exact ⟨name, hname, e, he, hne, hdot, hends⟩

/-- The path of a file with a short name and the extension. -/
def sample (e : String) : FilePath :=
  .ofChars ('x' :: '.' :: bare e)

theorem fileName?_sample {e : String} (hslash : '/' ∉ bare e) :
    (sample e).fileName? = some (('x' :: '.' :: bare e).map .char) := by
  apply FilePath.fileName?_of_isPlainName
  rw [FilePath.isPlainName_map_iff]
  refine ⟨by simp, by simp, by simp, ?_⟩
  simp [hslash]

theorem hasEnding_sample {e : String} (he : e ∈ extensions) (hne : bare e ≠ [])
    (hslash : '/' ∉ bare e) : HasEnding extensions (sample e) := by
  refine ⟨_, fileName?_sample hslash, e, he, hne, ?_⟩
  exact endsIn_iff.2 ⟨[.char 'x'], bare e, rfl, by simp, rfl⟩

/-- Whatever counts as an archive has a configured extension. All names with a configured extension
    count as archives exactly if of every extension with a dot inside, what follows the last dot
    is configured as well. Extensions with slashes are left aside, since no name has them. -/
theorem honours_extensions_iff (extensions : List String) (delimiters : String) :
    (∀ path, (ofSettings extensions delimiters).isArchive path = true →
        HasEnding extensions path) ∧
      ((∀ path, (ofSettings extensions delimiters).isArchive path = true ↔
          HasEnding extensions path) ↔
        ∀ e ∈ extensions, '.' ∈ bare e → '/' ∉ bare e → IsCovered extensions e) := by
  refine ⟨fun path => hasEnding_of_isArchive, ?_, ?_⟩
  · intro hall e he hdot hslash
    have hne : bare e ≠ [] := List.ne_nil_of_mem hdot
    have harchive := (hall (sample e)).2 (hasEnding_sample he hne hslash)
    obtain ⟨name, hname, last, hlast, hlastne, hlastdot, hends⟩ := isArchive_iff.1 harchive
    rw [fileName?_sample hslash] at hname
    rw [← Option.some.inj hname] at hends
    exact ⟨last, hlast, hlastne, hlastdot, hends.inner hlastdot hdot (head?_bare e)⟩
  · intro hcovered path
    exact ⟨hasEnding_of_isArchive, isArchive_of_hasEnding hcovered⟩

/-- Two extensions that are honoured, since the second one is the end of the first. -/
theorem honours_extensions_iff_covered :
    (∀ e ∈ [".tar.gz", "GZ"], '.' ∈ bare e → '/' ∉ bare e → IsCovered [".tar.gz", "GZ"] e) ∧
      HasEnding [".tar.gz", "GZ"] ⟨"lib/x.TAR.gz"⟩ ∧
      (ofSettings [".tar.gz", "GZ"] "").isArchive ⟨"lib/x.TAR.gz"⟩ = true := by
  have hcovered : ∀ e ∈ [".tar.gz", "GZ"], '.' ∈ bare e → '/' ∉ bare e →
      IsCovered [".tar.gz", "GZ"] e := by
    intro e he hdot _
    simp only [List.mem_cons, List.not_mem_nil, or_false] at he
    rcases he with rfl | rfl
    · exact ⟨"GZ", by simp, by decide, by decide,
        endsIn_map_iff.2 ⟨"tar".toList, "gz".toList, by decide, by decide, by decide⟩⟩
    · exact absurd hdot (by decide)
  have hending : HasEnding [".tar.gz", "GZ"] ⟨"lib/x.TAR.gz"⟩ :=
    ⟨"x.TAR.gz", by decide, ".tar.gz", by simp, by decide,
      endsIn_iff.2 ⟨"x", "TAR.gz".toList, by decide, by decide, by decide⟩⟩
  obtain ⟨-, hhonours⟩ := honours_extensions_iff [".tar.gz", "GZ"] ""
  exact ⟨hcovered, hending, (hhonours.2 hcovered _).2 hending⟩

/-- A name ends in the one extension that is configured, and is not taken for an archive. -/
theorem extension_not_honoured :
    ¬ ∀ (extensions : List String) (delimiters : String) (path : FilePath),
      (ofSettings extensions delimiters).isArchive path = true ↔ HasEnding extensions path := by
  intro hall
  have hending : HasEnding ["tar.gz"] ⟨"x.tar.gz"⟩ :=
    ⟨"x.tar.gz", by decide, "tar.gz", by simp, by decide,
      endsIn_iff.2 ⟨"x", "tar.gz".toList, by decide, by decide, by decide⟩⟩
  have harchive := (hall ["tar.gz"] ",;" ⟨"x.tar.gz"⟩).2 hending
  have hnone : (ofSettings ["tar.gz"] ",;").isArchive ⟨"x.tar.gz"⟩ = false := by
    decide
  rw [hnone] at harchive
  cases harchive

end Classpath

end Hosting
