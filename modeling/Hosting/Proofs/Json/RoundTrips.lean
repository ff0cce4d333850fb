import Hosting.Context.State
import Hosting.Proofs.Json.Formats
import Hosting.Proofs.Path.ContextPaths
import Hosting.BaseResource
import Hosting.Settings
import Hosting.WhiteList

/-! # Every format reads back

    Besides descriptors, the host writes settings, paths, states, white lists, patterns, bases
    and search paths. Each of them is a text, a record, or one of several named cases, and each
    is read back by the reader for the same shape. A path is written as a text, so what holds a
    path that is none cannot be written at all.

    - `isFormat`, for each kind of record.
    - `takes_json`, for each format: its reader takes its written form.
    - `formats_read_back`: the texts in use, for all formats.
-/

namespace Hosting

open Json

/-! ### Paths and states -/

theorem FilePath.regular_reader : Regular reader :=
  regular_text.map _

theorem FilePath.takes_json {p : FilePath} (hp : p.isText = true) : Takes reader p.json p := by
  have h : Takes reader p.json (.ofChars p.text.toList) :=
    (takes_text p.text).map _
  rwa [ofChars_text hp] at h

theorem FilePath.takes_optional {p? : Option FilePath} (hp : p?.all isText = true) :
    Takes (readOption reader) (optional json p?) p? := by
  cases p? with
  | none => exact takes_none regular_reader
  | some p => exact takes_some regular_reader (FilePath.takes_json hp) (by simp [Json.optional, json])

theorem ContextPath.takes_json (p : ContextPath) : Takes reader p.json p := by
  refine takes_parsed ?_
  rw [parse_text]
  rfl

theorem ContextState.regular_cases : ∀ p ∈ cases, Regular (choice.content p.2) := by
  simp only [cases, List.forall_mem_cons, List.not_mem_nil, false_implies, implies_true, and_true]
  exact
    ⟨regular_content, regular_content, regular_content, regular_text.map _, regular_content⟩

theorem ContextState.takes_json (s : ContextState) : Takes reader s.json s := by
  cases s with
  | failed reason => exact takes_carrying regular_cases rfl ((takes_text reason).map _)
  -- the other states are their names
  | deployed => exact takes_plain regular_cases rfl
  | starting => exact takes_plain regular_cases rfl
  | started => exact takes_plain regular_cases rfl
  | stopped => exact takes_plain regular_cases rfl

/-! ### White lists -/

theorem WhiteList.sortEntries_of_ordered {entries : List String}
    (h : entries.Pairwise fun a b => a < b) : sortEntries entries = entries := by
  induction entries with
  | nil => rfl
  | cons e rest ih =>
    obtain ⟨hhead, hrest⟩ := List.pairwise_cons.1 h
    show insertEntry e (sortEntries rest) = e :: rest
    rw [ih hrest]
    cases rest with
    | nil => rfl
    | cons e' rest =>
      rw [insertEntry, if_pos (hhead e' (by simp))]

/-- Entries that are in order already make the list that they were taken from. -/
theorem WhiteList.ofEntries_of_ordered {entries : List String}
    (h : entries.Pairwise fun a b => a < b) : ofEntries entries = .restricted entries h := by
  unfold ofEntries
  simp only [sortEntries_of_ordered h]

theorem WhiteList.regular_cases : ∀ p ∈ cases, Regular (choice.content p.2) := by
  simp only [cases, List.forall_mem_cons, List.not_mem_nil, false_implies, implies_true, and_true]
  exact ⟨regular_content, regular_texts.map _⟩

theorem WhiteList.takes_json (w : WhiteList) : Takes reader w.json w := by
  cases w with
  | unset => exact takes_plain regular_cases rfl
  | restricted entries ordered =>
    have hentries := (takes_texts entries).map ofEntries
    rw [ofEntries_of_ordered ordered] at hentries
    exact takes_carrying regular_cases rfl hentries

/-! ### Records -/

namespace PatternSet

/-- The members of a pattern set as they are written, each with what it says. -/
def written (s : PatternSet) : List (Written PatternSet) :=
  [.put "includes" (texts s.includes) (fun s v => { s with includes := v }) s.includes,
   .put "excludes" (texts s.excludes) (fun s v => { s with excludes := v }) s.excludes]

theorem isFormat : IsFormat fields written fun _ => True where
  names := by decide
  keys _ := rfl
  settles s := by constructor <;> simp [written, Written.put]
  whole _ _ := rfl
  fixes s := by simp [written, Written.put]
  regular := by simp [fields, requiredField, regular_texts.map]
  taken s _ := by
    simp only [written, List.forall_mem_cons, List.not_mem_nil, false_implies, implies_true,
      and_true]
    exact
      ⟨Written.isTaken_put rfl rfl (takes_texts _), Written.isTaken_put rfl rfl (takes_texts _)⟩

theorem regular_reader : Regular reader :=
  regular_record isFormat.regular _

theorem takes_json (s : PatternSet) : Takes reader s.json s :=
  isFormat.takes trivial trivial

end PatternSet

namespace Visibility

/-- The members of visibility rules as they are written, each with what it says. -/
def written (r : Visibility) : List (Written Visibility) :=
  [.put "system" r.system.json (fun r v => { r with system := v }) r.system,
   .put "server" r.server.json (fun r v => { r with server := v }) r.server]

theorem isFormat : IsFormat fields written fun _ => True where
  names := by decide
  keys _ := rfl
  settles r := by constructor <;> simp [written, Written.put]
  whole _ _ := rfl
  fixes r := by simp [written, Written.put]
  regular := by simp [fields, requiredField, PatternSet.regular_reader.map]
  taken r _ := by
    simp only [written, List.forall_mem_cons, List.not_mem_nil, false_implies, implies_true,
      and_true]
    exact
      ⟨Written.isTaken_put rfl rfl r.system.takes_json, Written.isTaken_put rfl rfl r.server.takes_json⟩

theorem regular_reader : Regular reader :=
  regular_record isFormat.regular _

theorem takes_json (r : Visibility) : Takes reader r.json r :=
  isFormat.takes trivial trivial

end Visibility

namespace BaseResource

/-- The members of an archive base as they are written, each with what it says. -/
def writtenArchive (pair : FilePath × FilePath) : List (Written (FilePath × FilePath)) :=
  [.put "archive" pair.1.json (fun p v => (v, p.2)) pair.1,
   .put "extracted" pair.2.json (fun p v => (p.1, v)) pair.2]

theorem isFormat_archive : IsFormat archiveFields writtenArchive
    fun pair => pair.1.isText = true ∧ pair.2.isText = true where
  names := by decide
  keys _ := rfl
  settles pair := by constructor <;> simp [writtenArchive, Written.put]
  whole _ _ := rfl
  fixes pair := by simp [writtenArchive, Written.put]
  regular := by simp [archiveFields, requiredField, FilePath.regular_reader.map]
  taken pair hpair := by
    simp only [writtenArchive, List.forall_mem_cons, List.not_mem_nil, false_implies,
      implies_true, and_true]
    exact
      ⟨Written.isTaken_put rfl rfl (FilePath.takes_json hpair.1),
       Written.isTaken_put rfl rfl (FilePath.takes_json hpair.2)⟩

theorem regular_cases : ∀ p ∈ cases, Regular (choice.content p.2) := by
  have hrecord : Regular (record archiveFields (⟨""⟩, ⟨""⟩)) :=
    regular_record isFormat_archive.regular _
  simp only [cases, List.forall_mem_cons, List.not_mem_nil, false_implies, implies_true, and_true]
  exact ⟨FilePath.regular_reader.map _, hrecord.map fun p => BaseResource.archive p.1 p.2⟩

theorem takes_json {base : BaseResource} (hbase : base.isText = true) :
    Takes reader base.json base := by
  cases base with
  | directory path => exact takes_carrying regular_cases rfl ((FilePath.takes_json hbase).map _)
  | archive file content =>
    have hpair : file.isText = true ∧ content.isText = true := by
      simpa [isText] using hbase
    have hrecord : Takes (record archiveFields (⟨""⟩, ⟨""⟩))
        (.object [("archive", file.json), ("extracted", content.json)]) (file, content) :=
      isFormat_archive.takes (v := (file, content)) hpair ⟨rfl, rfl⟩
    exact takes_carrying regular_cases rfl (hrecord.map fun p => BaseResource.archive p.1 p.2)

end BaseResource

/-! ### Search paths -/

theorem LibraryKind.regular_cases : ∀ p ∈ cases, Regular (choice.content p.2) := by
  simp only [cases, List.forall_mem_cons, List.not_mem_nil, false_implies, implies_true, and_true]
  exact ⟨regular_content, regular_content⟩

theorem LibraryKind.regular_reader : Regular reader :=
  (means_choice regular_cases).regular

theorem LibraryKind.takes_json (kind : LibraryKind) : Takes reader (.text kind.name) kind := by
  cases kind with
  | directory => exact takes_plain regular_cases rfl
  | archive => exact takes_plain regular_cases rfl

namespace Library

/-- The members of a library as they are written, each with what it says. -/
def written (lib : Library) : List (Written Library) :=
  [.put "path" lib.path.json (fun r v => { r with path := v }) lib.path,
   .put "kind" (.text lib.kind.name) (fun r v => { r with kind := v }) lib.kind]

theorem isFormat : IsFormat fields written fun lib => lib.path.isText = true where
  names := by decide
  keys _ := rfl
  settles lib := by constructor <;> simp [written, Written.put]
  whole _ _ := rfl
  fixes lib := by simp [written, Written.put]
  regular := by
    simp [fields, requiredField, FilePath.regular_reader.map, LibraryKind.regular_reader.map]
  taken lib hlib := by
    simp only [written, List.forall_mem_cons, List.not_mem_nil, false_implies, implies_true,
      and_true]
    exact
      ⟨Written.isTaken_put rfl rfl (FilePath.takes_json hlib),
       Written.isTaken_put rfl rfl lib.kind.takes_json⟩

theorem regular_reader : Regular reader :=
  regular_record isFormat.regular _

theorem takes_json {lib : Library} (hlib : lib.path.isText = true) : Takes reader lib.json lib :=
  isFormat.takes hlib rfl

end Library

namespace LibrarySet

/-- The members of a search path as they are written, each with what it says. -/
def written (s : LibrarySet) : List (Written LibrarySet) :=
  [.put "libraries" (.array (s.libraries.map Library.json)) (fun s v => { s with libraries := v })
    s.libraries,
   .put "parent_loader_priority" (.bool s.parentFirst) (fun s v => { s with parentFirst := v })
    s.parentFirst,
   .put "visibility" s.visibility.json (fun s v => { s with visibility := v }) s.visibility]

theorem takes_libraries {s : LibrarySet} (hs : s.isText = true) :
    Takes (readList Library.reader) (.array (s.libraries.map Library.json)) s.libraries :=
  takes_list Library.regular_reader fun _ hlib => Library.takes_json (List.all_eq_true.1 hs _ hlib)

theorem isFormat : IsFormat fields written fun s => s.isText = true where
  names := by decide
  keys _ := rfl
  settles s := by constructor <;> simp [written, Written.put]
  whole _ _ := rfl
  fixes s := by simp [written, Written.put]
  regular := by
    simp [fields, requiredField, (means_list Library.regular_reader).regular.map,
      means_bool.regular.map, Visibility.regular_reader.map]
  taken s hs := by
    simp only [written, List.forall_mem_cons, List.not_mem_nil, false_implies, implies_true,
      and_true]
    exact
      ⟨Written.isTaken_put rfl rfl (takes_libraries hs),
       Written.isTaken_put rfl rfl (takes_bool _),
       Written.isTaken_put rfl rfl s.visibility.takes_json⟩

theorem regular_reader : Regular reader :=
  regular_record isFormat.regular _

theorem takes_json {s : LibrarySet} (hs : s.isText = true) : Takes reader s.json s :=
  isFormat.takes hs rfl

end LibrarySet

/-! ### Settings -/

namespace Settings

/-- The members of settings as they are written, each with what it says. -/
def written (s : Settings) : List (Written Settings) :=
  [.put "default_configuration_classes" (optional texts s.processors)
    (fun s v => { s with processors := v }) s.processors,
   .put "builtin_configurations" (texts s.builtinProcessors)
    (fun s v => { s with builtinProcessors := v }) s.builtinProcessors,
   .put "archive_extensions" (texts s.archiveExtensions)
    (fun s v => { s with archiveExtensions := v }) s.archiveExtensions,
   .put "classpath_delimiters" (.text s.classpathDelimiters)
    (fun s v => { s with classpathDelimiters := v }) s.classpathDelimiters,
   .put "classpath_base" (optional FilePath.json s.classpathBase)
    (fun s v => { s with classpathBase := v }) s.classpathBase,
   .put "system_classes" (texts s.systemNames) (fun s v => { s with systemNames := v })
    s.systemNames,
   .put "server_classes" (texts s.serverNames) (fun s v => { s with serverNames := v })
    s.serverNames,
   .put "protected_targets" (texts s.protectedTargets)
    (fun s v => { s with protectedTargets := v }) s.protectedTargets,
   .put "deploy_directory" (optional FilePath.json s.deployDirectory)
    (fun s v => { s with deployDirectory := v }) s.deployDirectory,
   .put "data_directory" (optional FilePath.json s.dataDirectory)
    (fun s v => { s with dataDirectory := v }) s.dataDirectory,
   .put "max_concurrent_startups" (.number s.maxConcurrentStartups.toNat)
    (fun s v => { s with maxConcurrentStartups := v }) s.maxConcurrentStartups,
   .put "scan_interval_ms" (.number s.scanIntervalMs.toNat)
    (fun s v => { s with scanIntervalMs := v }) s.scanIntervalMs,
   .put "debug_logging" (.bool s.debugLogging) (fun s v => { s with debugLogging := v })
    s.debugLogging]

theorem regular_fields : ∀ f ∈ fields, Regular f.read := by
  have hoption : Regular (readOption readTexts) := (means_option regular_texts).regular
  have hpath : Regular (readOption FilePath.reader) :=
    (means_option FilePath.regular_reader).regular
  have hcount := means_count.regular
  simp only [fields, field, List.forall_mem_cons, List.not_mem_nil, false_implies, implies_true,
    and_true]
  exact
    ⟨hoption.map _, regular_texts.map _, regular_texts.map _, regular_text.map _, hpath.map _,
      regular_texts.map _, regular_texts.map _, regular_texts.map _, hpath.map _, hpath.map _,
      hcount.map _, hcount.map _, means_bool.regular.map _⟩

theorem taken_written {s : Settings} (hs : s.isText = true) :
    ∀ w ∈ s.written, w.IsTaken fields := by
  have hpath (p? : Option FilePath)
      (hp : p? ∈ [s.classpathBase, s.deployDirectory, s.dataDirectory]) :
      Takes (readOption FilePath.reader) (optional FilePath.json p?) p? :=
    FilePath.takes_optional (List.all_eq_true.1 hs p? hp)
  simp only [written, List.forall_mem_cons, List.not_mem_nil, false_implies, implies_true,
    and_true]
  exact
    ⟨Written.isTaken_put rfl rfl (takes_optionalTexts _),
     Written.isTaken_put rfl rfl (takes_texts _),
     Written.isTaken_put rfl rfl (takes_texts _),
     Written.isTaken_put rfl rfl (takes_text _),
     Written.isTaken_put rfl rfl (hpath _ (by simp)),
     Written.isTaken_put rfl rfl (takes_texts _),
     Written.isTaken_put rfl rfl (takes_texts _),
     Written.isTaken_put rfl rfl (takes_texts _),
     Written.isTaken_put rfl rfl (hpath _ (by simp)),
     Written.isTaken_put rfl rfl (hpath _ (by simp)),
     Written.isTaken_put rfl rfl (takes_count _),
     Written.isTaken_put rfl rfl (takes_count _),
     Written.isTaken_put rfl rfl (takes_bool _)⟩

theorem isFormat : IsFormat fields written fun s => s.isText = true where
  names := by decide
  keys _ := rfl
  settles s := by
    constructor <;>
      simp only [written, Written.put, List.forall_mem_cons, List.not_mem_nil, false_implies,
        implies_true, and_true]
  whole s start := by
    simp only [Written.updateAll, written, Written.put, List.foldl_cons, List.foldl_nil]
  fixes s := by
    simp only [written, Written.put, List.forall_mem_cons, List.not_mem_nil, false_implies,
      implies_true, and_true]
  regular := regular_fields
  taken _ hs := taken_written hs

theorem regular_reader : Regular reader :=
  regular_record regular_fields _

theorem takes_json {s : Settings} (hs : s.isText = true) : Takes reader s.json s :=
  isFormat.takes hs rfl

theorem ofText_toText {s : Settings} (hs : s.isText = true) : ofText s.toText = .ok s :=
  (readAll_of_takes regular_reader (takes_json hs)).1

end Settings

/-! ### All formats -/

/-- The reader takes the compact and the indented text of every value that can be written back to
    that value. -/
def ReadsBack {α : Type} (item : Reader α) (write : α → Json) (writable : α → Prop) : Prop :=
  ∀ v, writable v →
    readAll item (write v).toText = .ok v ∧ readAll item (write v).toPrettyText = .ok v

theorem ContextPath.readsBack : ReadsBack reader json fun _ => True :=
  fun p _ => readAll_of_takes (means_parsed _).regular p.takes_json

/-- Whatever its texts, lists and options hold, a descriptor comes back from its indented and from
    its compact text, and so do settings and every path, state, white list, pattern set, base
    and search path. What holds paths has to hold only those that are texts, as no other can be
    written. -/
theorem formats_read_back :
    (∀ d : Descriptor, Descriptor.ofText d.toPrettyText = .ok d ∧
        Descriptor.ofText d.toText = .ok d) ∧
      (∀ s : Settings, s.isText = true → Settings.ofText s.toText = .ok s) ∧
      ReadsBack Settings.reader Settings.json (fun s => s.isText = true) ∧
      ReadsBack ContextPath.reader ContextPath.json (fun _ => True) ∧
      ReadsBack ContextState.reader ContextState.json (fun _ => True) ∧
      ReadsBack WhiteList.reader WhiteList.json (fun _ => True) ∧
      ReadsBack PatternSet.reader PatternSet.json (fun _ => True) ∧
      ReadsBack BaseResource.reader BaseResource.json (fun base => base.isText = true) ∧
      ReadsBack LibrarySet.reader LibrarySet.json (fun s => s.isText = true) := by
  refine ⟨?_, ?_, ?_, ContextPath.readsBack, ?_, ?_, ?_, ?_, ?_⟩
  · intro d
    exact d.readAll_json.symm
  · intro s hs
    exact Settings.ofText_toText hs
  · intro s hs
    exact readAll_of_takes Settings.regular_reader (Settings.takes_json hs)
  · intro s _
    exact readAll_of_takes (means_choice ContextState.regular_cases).regular s.takes_json
  · intro w _
    exact readAll_of_takes (means_choice WhiteList.regular_cases).regular w.takes_json
  · intro s _
    exact readAll_of_takes PatternSet.regular_reader s.takes_json
  · intro base hbase
    exact readAll_of_takes (means_choice BaseResource.regular_cases).regular
      (BaseResource.takes_json hbase)
  · intro s hs
    exact readAll_of_takes LibrarySet.regular_reader (LibrarySet.takes_json hs)

/-- An archive whose name needs escapes, with its content beside it. -/
def quotedBase : BaseResource :=
  .archive ⟨"/srv/\"a\"\n.war"⟩ ⟨"/srv/\"a\"\n"⟩

/-- Default settings with a deploy directory whose name is that of the archive. -/
def quotedSettings : Settings :=
  { Settings.default with deployDirectory := some quotedBase.contentRoot }

/-- The content of the archive as the only library, and no rules. -/
def quotedSearchPath : LibrarySet :=
  ⟨[⟨quotedBase.contentRoot, .directory⟩], true, .empty⟩

theorem formats_read_back_quoted :
    quotedSettings.isText = true ∧ quotedBase.isText = true ∧ quotedSearchPath.isText = true ∧
      Settings.ofText quotedSettings.toText = .ok quotedSettings ∧
      readAll BaseResource.reader quotedBase.json.toText = .ok quotedBase ∧
      readAll LibrarySet.reader quotedSearchPath.json.toPrettyText = .ok quotedSearchPath := by
  have hsettings : quotedSettings.isText = true := by
    decide +kernel
  have hbase : quotedBase.isText = true := by
    decide +kernel
  have hsearch : quotedSearchPath.isText = true := by
    decide +kernel
  obtain ⟨-, settings, -, -, -, -, -, base, search⟩ := formats_read_back
  exact
    ⟨hsettings, hbase, hsearch, settings quotedSettings hsettings, (base quotedBase hbase).1,
      (search quotedSearchPath hsearch).2⟩

end Hosting
