import Hosting.Proofs.Host.Replacements
import Hosting.Proofs.Json.RoundTrips

/-! # Settings in force

    Settings come in from outside in four ways: as they are given to a new host, from the text
    in a database, from a change in memory, and from a save of any settings into a database.
    Not all of these mend them, but every way into a host does, so the settings of a host make
    sense at all times. Mending changes nothing that makes sense, so a host that is made
    again from what it has saved has the settings that it had.

    - `IsValid`, `KeepsValid`: which settings make sense, and what is left alone in the others.
    - `validated_eq_self_iff`: what makes sense is what mending leaves as it is.
    - `settings_of_write`: how the settings of a host can change at all.
    - `HasTables`: the tables that were there when the host was made stay there.
    - `settings_in_force`: the settings of a host, and what becomes of them by way of a database.
-/

namespace Hosting

/-! ### What makes sense -/

namespace Settings

/-- Every setting makes sense. Those that are not named here always do. -/
structure IsValid (s : Settings) : Prop where
  startups : 1 ≤ s.maxConcurrentStartups
  interval : 100 ≤ s.scanIntervalMs
  delimiters : s.classpathDelimiters ≠ ""
  extensions : s.archiveExtensions ≠ []
  processors : s.processors ≠ some []

/-- Every setting of `s` that makes sense is the same in `t`. -/
structure KeepsValid (s t : Settings) : Prop where
  startups : 1 ≤ s.maxConcurrentStartups → t.maxConcurrentStartups = s.maxConcurrentStartups
  interval : 100 ≤ s.scanIntervalMs → t.scanIntervalMs = s.scanIntervalMs
  delimiters : s.classpathDelimiters ≠ "" → t.classpathDelimiters = s.classpathDelimiters
  extensions : s.archiveExtensions ≠ [] → t.archiveExtensions = s.archiveExtensions
  processors : s.processors ≠ some [] → t.processors = s.processors
  builtinProcessors : t.builtinProcessors = s.builtinProcessors
  classpathBase : t.classpathBase = s.classpathBase
  systemNames : t.systemNames = s.systemNames
  serverNames : t.serverNames = s.serverNames
  protectedTargets : t.protectedTargets = s.protectedTargets
  deployDirectory : t.deployDirectory = s.deployDirectory
  dataDirectory : t.dataDirectory = s.dataDirectory
  debugLogging : t.debugLogging = s.debugLogging

theorem le_max_count (n least : UInt32) : least ≤ max n least := by
  show least ≤ if n ≤ least then least else n
  split
  · exact UInt32.le_refl least
  · next h => exact (UInt32.le_total n least).resolve_left h

theorem max_count_eq {n least : UInt32} (h : least ≤ n) : max n least = n := by
  show (if n ≤ least then least else n) = n
  split
  · next h' => exact UInt32.le_antisymm h h'
  · rfl

theorem isValid_validated (s : Settings) : s.validated.IsValid where
  startups := le_max_count _ _
  interval := le_max_count _ _
  delimiters := by
    unfold validated
    simp only
    split
    · decide
    · next h => exact h
  extensions := by
    unfold validated
    simp only
    split
    · decide
    · next h => exact h
  processors := by
    unfold validated
    simp only
    split
    · simp
    · next h => exact h

theorem keepsValid_validated (s : Settings) : s.KeepsValid s.validated where
  startups := max_count_eq
  interval := max_count_eq
  delimiters h := if_neg h
  extensions h := if_neg h
  processors h := if_neg h
  builtinProcessors := rfl
  classpathBase := rfl
  systemNames := rfl
  serverNames := rfl
  protectedTargets := rfl
  deployDirectory := rfl
  dataDirectory := rfl
  debugLogging := rfl

/-- Settings make sense exactly if mending leaves them as they are. -/
theorem validated_eq_self_iff {s : Settings} : s.validated = s ↔ s.IsValid := by
  constructor
  · intro h
    rw [← h]
    exact isValid_validated s
  · intro h
    show { s with
      maxConcurrentStartups := s.validated.maxConcurrentStartups
      scanIntervalMs := s.validated.scanIntervalMs
      classpathDelimiters := s.validated.classpathDelimiters
      archiveExtensions := s.validated.archiveExtensions
      processors := s.validated.processors } = s
    have hkept := keepsValid_validated s
    rw [hkept.startups h.startups, hkept.interval h.interval, hkept.delimiters h.delimiters,
      hkept.extensions h.extensions, hkept.processors h.processors]

theorem validated_validated (s : Settings) : s.validated.validated = s.validated :=
  validated_eq_self_iff.2 (isValid_validated s)

end Settings

/-! ### Stored settings -/

namespace Database

variable {db db' : Database}

/-- A statement succeeds on a table that exists. -/
theorem onTable_eq_ok_iff {α β : Type} {name : String} {table : Option α}
    {f : α → Except Failure β} {result : β} :
    Tables.onTable name table f = .ok result ↔ ∃ rows, table = some rows ∧ f rows = .ok result := by
  cases table with
  | none => simp [Tables.onTable]
  | some rows => simp [Tables.onTable]

/-- A change succeeds if its statement does and the database accepts changes. -/
theorem change_eq_ok_iff {f : Tables → Except Failure Tables} :
    db.change f = .ok db' ↔
      db.writable = true ∧ ∃ t, f db.tables = .ok t ∧ db' = { db with tables := t } := by
  unfold change
  cases f db.tables with
  | error e => simp
  | ok t => cases db.writable <;> simp [eq_comm]

/-- Only settings whose paths are texts have a text to be stored. -/
theorem saveSettings_eq_ok_iff {t t' : Tables} {s : Settings} :
    t.saveSettings s = .ok t' ↔ s.isText = true ∧ t.putSettings s.toText = .ok t' := by
  unfold Tables.saveSettings
  by_cases htext : s.isText = true
  · simp [htext]
  · simp [htext]

/-- The settings that a database gives after others were saved into it. -/
theorem load_of_saved {s : Settings} (hsaved : db.change (·.saveSettings s) = .ok db') :
    db'.tables.loadSettings = .ok (some s.validated) := by
  obtain ⟨-, t, ht, rfl⟩ := change_eq_ok_iff.1 hsaved
  obtain ⟨htext, hput⟩ := saveSettings_eq_ok_iff.1 ht
  obtain ⟨old, -, hput⟩ := onTable_eq_ok_iff.1 hput
  obtain rfl := Except.ok.inj hput
  simp only [Tables.loadSettings, Tables.onTable, Settings.ofText_toText htext]

/-- Settings can be saved where there is a table for them and changes are accepted, if they have a
    text. -/
theorem saves_iff (s : Settings) :
    (∃ db', db.change (·.saveSettings s) = .ok db') ↔
      db.writable = true ∧ s.isText = true ∧ db.tables.settings ≠ none := by
  constructor
  · intro ⟨db', hsaved⟩
    obtain ⟨hw, t, ht, -⟩ := change_eq_ok_iff.1 hsaved
    obtain ⟨htext, hput⟩ := saveSettings_eq_ok_iff.1 ht
    obtain ⟨old, hold, -⟩ := onTable_eq_ok_iff.1 hput
    exact ⟨hw, htext, by rw [hold]; simp⟩
  · intro ⟨hw, htext, htable⟩
    obtain ⟨old, hold⟩ := Option.ne_none_iff_exists'.1 htable
    have hput : db.tables.putSettings s.toText =
        .ok { db.tables with settings := some (some s.toText) } :=
      onTable_eq_ok_iff.2 ⟨old, hold, rfl⟩
    exact ⟨_, change_eq_ok_iff.2 ⟨hw, _, saveSettings_eq_ok_iff.2 ⟨htext, hput⟩, rfl⟩⟩

/-- There are tables for settings and for deployments. -/
def HasTables (t : Tables) : Prop :=
  t.settings ≠ none ∧ t.deployments ≠ none

/-- The tables that hosts are made from are there after a statement, if they were there before. -/
def KeepsTables (f : Tables → Except Failure Tables) : Prop :=
  ∀ t t', f t = .ok t' → HasTables t → HasTables t'

theorem keepsTables_saveSettings (s : Settings) : KeepsTables (·.saveSettings s) := by
  intro t t' h ht
  obtain ⟨old, -, hput⟩ := onTable_eq_ok_iff.1 (saveSettings_eq_ok_iff.1 h).2
  obtain rfl := Except.ok.inj hput
  exact ⟨by simp, ht.2⟩

theorem keepsTables_recordEvent (path : ContextPath) (event : String) (details : Option String)
    (time : Instant) : KeepsTables (·.recordEvent path event details time) := by
  intro t t' h ht
  obtain ⟨events, -, hput⟩ := onTable_eq_ok_iff.1 h
  obtain rfl := Except.ok.inj hput
  exact ht

theorem keepsTables_deleteDeployment (path : ContextPath) :
    KeepsTables (·.deleteDeployment path) := by
  intro t t' h ht
  obtain ⟨rows, -, hput⟩ := onTable_eq_ok_iff.1 h
  obtain rfl := Except.ok.inj hput
  exact ⟨ht.1, by simp⟩

theorem keepsTables_saveDeployment (d : Descriptor) (id : DeploymentId) (time : Instant) :
    KeepsTables (·.saveDeployment d id time) := by
  intro t t' h ht
  simp only [Tables.saveDeployment] at h
  split at h
  · cases h
  · obtain ⟨rows, -, hput⟩ := onTable_eq_ok_iff.1 h
    obtain rfl := Except.ok.inj hput
    exact ⟨ht.1, by simp⟩

theorem hasTables_of_change {f : Tables → Except Failure Tables} (ht : HasTables db.tables)
    (hf : KeepsTables f) (hchange : db.change f = .ok db') : HasTables db'.tables := by
  obtain ⟨-, t, hstatement, rfl⟩ := change_eq_ok_iff.1 hchange
  exact hf _ _ hstatement ht

end Database

namespace Host

variable {h h' : Host}

/-! ### The settings of a host -/

/-- A change of a host leaves its settings, or puts mended ones in their place. -/
theorem settings_of_write (hw : Write h h') :
    h'.settings = h.settings ∨ ∃ s : Settings, h'.settings = s.validated := by
  cases hw with
  | deploy d => exact .inl (settings_deploy h d)
  | undeploy path => exact .inl (settings_undeploy h path)
  | tick => exact .inl rfl
  | replace c _ _ => exact .inl rfl
  | record path event details => exact .inl (settings_record h path event details)
  | updateSettings f => exact .inr ⟨f h.settings, rfl⟩
  | saveSettings =>
    refine .inl ?_
    unfold saveSettings
    split
    · rfl
    · split <;> rfl

theorem valid_of_writes (hvalid : h.settings.IsValid) (hw : Writes h h') :
    h'.settings.IsValid := by
  induction hw with
  | refl => exact hvalid
  | tail _ hwrite ih =>
    rcases settings_of_write hwrite with hsame | ⟨s, hmended⟩
    · rw [hsame]
      exact ih
    · rw [hmended]
      exact s.isValid_validated

/-- What a restored host has for settings: those that the database gives, or the default ones. -/
theorem settings_restore {db : Database} {registry : ProcessorRegistry} {supply : Supply}
    {settings : Option Settings} (hload : db.tables.loadSettings = .ok settings)
    (hr : restore db registry supply = .ok h) :
    h.settings = (settings.getD .default).validated := by
  unfold restore at hr
  rw [hload] at hr
  simp only at hr
  split at hr
  · cases hr
  · obtain rfl := Except.ok.inj hr
    refine List.foldlRecOn
      (motive := fun h : Host => h.settings = (settings.getD .default).validated)
      _ _ rfl ?_
    intro other hsettings d _
    rw [settings_register]
    exact hsettings

theorem Opened.valid (ho : Opened h) : h.settings.IsValid := by
  cases ho with
  | ofSettings settings registry supply => exact settings.isValid_validated
  | restore hr =>
    refine restore_induction (motive := fun h => h.settings.IsValid) hr
      (fun settings => settings.isValid_validated) ?_
    intro other d hvalid
    rw [settings_register]
    exact hvalid

theorem valid_of_reachable (hr : h.Reachable) : h.settings.IsValid := by
  obtain ⟨opened, hopened, hsteps⟩ := hr
  exact valid_of_writes hopened.valid (writes_of_steps hopened.keyed hsteps)

/-! ### The tables of its database -/

/-- The database of the host, if it has one, has the tables that hosts are made from. -/
def HasTables (h : Host) : Prop :=
  ∀ db, h.database = some db → Database.HasTables db.tables

namespace HasTables

theorem of_database_eq (ht : h.HasTables) (heq : h'.database = h.database) : h'.HasTables := by
  intro db hdb
  rw [heq] at hdb
  exact ht db hdb

theorem onDatabase (ht : h.HasTables) {f : Tables → Except Failure Tables}
    (hf : Database.KeepsTables f) : (h.onDatabase f).1.HasTables := by
  unfold Host.onDatabase
  split
  · exact ht
  · next db hdb =>
    split
    · exact ht
    · next changed hchange =>
      intro db' hdb'
      obtain rfl := Option.some.inj hdb'
      exact Database.hasTables_of_change (ht db hdb) hf hchange

theorem record (ht : h.HasTables) (path : ContextPath) (event : String)
    (details : Option String) : (h.record path event details).HasTables := by
  unfold Host.record
  split
  · exact ht
  · next db hdb =>
    split
    · exact ht
    · next changed hchange =>
      intro db' hdb'
      obtain rfl := Option.some.inj hdb'
      exact Database.hasTables_of_change (ht db hdb)
        (Database.keepsTables_recordEvent path event details _) hchange

theorem saveSettings (ht : h.HasTables) : h.saveSettings.1.HasTables := by
  unfold Host.saveSettings
  split
  · exact ht
  · next db hdb =>
    split
    · exact ht
    · next changed hchange =>
      intro db' hdb'
      obtain rfl := Option.some.inj hdb'
      exact Database.hasTables_of_change (ht db hdb) (Database.keepsTables_saveSettings _) hchange

theorem storeDeployment (ht : h.HasTables) (path : ContextPath) (d : Descriptor) :
    (h.storeDeployment path d).1.HasTables := by
  unfold Host.storeDeployment
  split
  · exact ht
  · exact ht.onDatabase (Database.keepsTables_saveDeployment d _ _)

theorem deploy (ht : h.HasTables) (d : Descriptor) : (h.deploy d).1.HasTables := by
  have hregister : (h.register d).1.HasTables := ht.of_database_eq (database_register h d)
  rcases deploy_parts h d with hr | ⟨path, hs | hs⟩
  · rw [hr]
    exact hregister
  · rw [hs]
    exact hregister.storeDeployment path d
  · rw [hs]
    exact (hregister.storeDeployment path d).record path _ _

theorem undeploy (ht : h.HasTables) (path : ContextPath) : (h.undeploy path).1.HasTables := by
  have hremoved : ((h.removeContext path).removeDescriptor path).HasTables :=
    ht.of_database_eq rfl
  have hdeleted := hremoved.onDatabase (Database.keepsTables_deleteDeployment path)
  unfold Host.undeploy
  split
  · exact ht
  · split
    · next heq =>
      rw [heq] at hdeleted
      exact hdeleted
    · next heq =>
      rw [heq] at hdeleted
      exact hdeleted.record path _ _

theorem write (ht : h.HasTables) (hw : Write h h') : h'.HasTables := by
  cases hw with
  | deploy d => exact ht.deploy d
  | undeploy path => exact ht.undeploy path
  | tick => exact ht
  | replace c _ _ => exact ht
  | record path event details => exact ht.record path event details
  | updateSettings f => exact ht
  | saveSettings => exact ht.saveSettings

theorem writes (ht : h.HasTables) (hw : Writes h h') : h'.HasTables := by
  induction hw with
  | refl => exact ht
  | tail _ hwrite ih => exact ih.write hwrite

end HasTables

/-- A host is made only from a database that has both tables. -/
theorem Opened.hasTables (ho : Opened h) : h.HasTables := by
  cases ho with
  | ofSettings settings registry supply =>
    intro db hdb
    cases hdb
  | @restore db registry supply _ hr =>
    intro db' hdb'
    rw [database_restore hr] at hdb'
    obtain rfl := Option.some.inj hdb'
    constructor
    · intro hnone
      simp [Host.restore, Tables.loadSettings, Tables.onTable, hnone] at hr
    · intro hnone
      unfold Host.restore at hr
      split at hr
      · cases hr
      · simp [Tables.loadDeployments, Tables.onTable, hnone] at hr

theorem hasTables_of_reachable (hr : h.Reachable) : h.HasTables := by
  obtain ⟨opened, hopened, hsteps⟩ := hr
  exact hopened.hasTables.writes (writes_of_steps hopened.keyed hsteps)

/-! ### Saving and making a host again -/

/-- From a database that gives settings and has deployments, a host with these settings is made. -/
theorem exists_restore {db : Database} (ht : Database.HasTables db.tables) {s : Settings}
    (hload : db.tables.loadSettings = .ok (some s)) (registry : ProcessorRegistry)
    (supply : Supply) :
    ∃ again, restore db registry supply = .ok again ∧ again.settings = s.validated := by
  obtain ⟨rows, hrows⟩ := Option.ne_none_iff_exists'.1 ht.2
  have hrestored : ∃ again, restore db registry supply = .ok again := by
    unfold restore
    simp only [hload, Tables.loadDeployments, Tables.onTable, hrows]
    exact ⟨_, rfl⟩
  obtain ⟨again, hagain⟩ := hrestored
  exact ⟨again, hagain, settings_restore hload hagain⟩

/-- What comes of a save: it succeeds if the database accepts changes and the settings have a text,
    and then a host is made from the database that has the same settings. Otherwise nothing
    changes. -/
theorem saveSettings_spec (hr : h.Reachable) {db : Database} (hdb : h.database = some db) :
    (h.saveSettings.2 = .ok () ↔ db.writable = true ∧ h.settings.isText = true) ∧
      (h.saveSettings.2 ≠ .ok () → h.saveSettings.1 = h) ∧
      (h.saveSettings.2 = .ok () → ∃ saved, h.saveSettings.1.database = some saved ∧
        ∀ registry supply, ∃ again,
          restore saved registry supply = .ok again ∧ again.settings = h.settings) := by
  have ht : Database.HasTables db.tables := hasTables_of_reachable hr db hdb
  have hsaves : (∃ db', db.change (·.saveSettings h.settings) = .ok db') ↔
      db.writable = true ∧ h.settings.isText = true ∧ db.tables.settings ≠ none :=
    Database.saves_iff h.settings
  cases hchange : db.change (·.saveSettings h.settings) with
  | error e =>
    have hfails : h.saveSettings = (h, .error e) := by
      unfold saveSettings
      simp only [hdb, hchange]
    -- the tables are there, so nothing else can have been in the way
    have hrefused : ¬ (db.writable = true ∧ h.settings.isText = true) := by
      intro ⟨hw, htext⟩
      obtain ⟨saved, hsaved⟩ := hsaves.2 ⟨hw, htext, ht.1⟩
      rw [hchange] at hsaved
      cases hsaved
    rw [hfails]
    exact ⟨iff_of_false (by simp) hrefused, fun _ => rfl, fun hok => by simp at hok⟩
  | ok saved =>
    have hsucceeds : h.saveSettings = ({ h with database := some saved }, .ok ()) := by
      unfold saveSettings
      simp only [hdb, hchange]
    have hwhere := hsaves.1 ⟨saved, hchange⟩
    rw [hsucceeds]
    refine ⟨iff_of_true rfl ⟨hwhere.1, hwhere.2.1⟩, fun hfails => absurd rfl hfails,
      fun _ => ⟨saved, rfl, ?_⟩⟩
    intro registry supply
    obtain ⟨again, hagain, hsettings⟩ :=
      exists_restore
        (Database.hasTables_of_change ht (Database.keepsTables_saveSettings _) hchange)
        (Database.load_of_saved hchange) registry supply
    refine ⟨again, hagain, ?_⟩
    -- the settings of the host made sense, so they are saved, and restored, as they are
    rw [hsettings, Settings.validated_validated]
    exact Settings.validated_eq_self_iff.2 (valid_of_reachable hr)

/-- Mending settings once is enough, and leaves what makes sense. The settings of a host make sense
    after any run. Any settings that are saved into a database come back mended; and where a
    host saves its own, every host that is made from the database has the same. Paths in settings
    are any bytes, and a save succeeds if the database accepts changes and all of these paths are
    texts. A save that fails leaves everything as it was. -/
theorem settings_in_force :
    (∀ s : Settings, s.validated.validated = s.validated ∧ s.KeepsValid s.validated) ∧
      (∀ h : Host, h.Reachable → h.settings.validated = h.settings ∧ h.settings.IsValid) ∧
      (∀ (db : Database) (s : Settings),
        ((∃ db', db.change (·.saveSettings s) = .ok db') ↔
            db.writable = true ∧ s.isText = true ∧ db.tables.settings ≠ none) ∧
          ∀ db', db.change (·.saveSettings s) = .ok db' →
            db'.tables.loadSettings = .ok (some s.validated)) ∧
      ∀ (h : Host) (db : Database), h.Reachable → h.database = some db →
        (h.saveSettings.2 = .ok () ↔ db.writable = true ∧ h.settings.isText = true) ∧
          (h.saveSettings.2 ≠ .ok () → h.saveSettings.1 = h) ∧
          (h.saveSettings.2 = .ok () → ∃ saved, h.saveSettings.1.database = some saved ∧
            ∀ registry supply, ∃ again,
              restore saved registry supply = .ok again ∧ again.settings = h.settings) := by
  refine ⟨?_, ?_, ?_, ?_⟩
  · intro s
    exact ⟨s.validated_validated, s.keepsValid_validated⟩
  · intro h hr
    have hvalid := valid_of_reachable hr
    exact ⟨Settings.validated_eq_self_iff.2 hvalid, hvalid⟩
  · intro db s
    exact ⟨Database.saves_iff s, fun db' => Database.load_of_saved⟩
  · intro h db hr hdb
    exact saveSettings_spec hr hdb

/-- A change to settings that make no sense: no startups, no delimiters, an empty list. -/
def senseless (s : Settings) : Settings :=
  { s with maxConcurrentStartups := 0, classpathDelimiters := "", processors := some [] }

/-- A host with an open database, after that change. -/
def mendedHost : Host :=
  defaultHost.updateSettings senseless

/-- A change of the data directory to one whose name is no text. -/
def unspeakable (s : Settings) : Settings :=
  { s with dataDirectory := some ⟨[.char '/', .stray ⟨[0xFF], by decide⟩]⟩ }

/-- A host with an open database, after that change. -/
def unsavedHost : Host :=
  defaultHost.updateSettings unspeakable

/-- Senseless settings are mended when they change, are saved, and are those of the next host. A
    path that is no text is not saved, and the host says so. -/
theorem settings_in_force_senseless :
    mendedHost.Reachable ∧ mendedHost.database ≠ none ∧
      mendedHost.settings.maxConcurrentStartups = 1 ∧
      mendedHost.settings.classpathDelimiters = ",;" ∧
      mendedHost.saveSettings.2 = .ok () ∧
      (∃ saved, mendedHost.saveSettings.1.database = some saved ∧
        ∃ again, restore saved .default ⟨100, 0⟩ = .ok again ∧
          again.settings = mendedHost.settings) ∧
      unsavedHost.Reachable ∧ unsavedHost.saveSettings.2 ≠ .ok () ∧
      unsavedHost.saveSettings.1 = unsavedHost := by
  have hreach (f : Settings → Settings) : (defaultHost.updateSettings f).Reachable :=
    ⟨defaultHost, .restore restore_defaultHost, .single (.updateSettings _ _)⟩
  have hdb : defaultHost.database = some freshDatabase := database_restore restore_defaultHost
  obtain ⟨hok, -, hagain⟩ :=
    settings_in_force.2.2.2 mendedHost freshDatabase (hreach senseless) hdb
  have hsaved : mendedHost.saveSettings.2 = .ok () := hok.2 ⟨rfl, by decide⟩
  obtain ⟨saved, hstored, hmade⟩ := hagain hsaved
  obtain ⟨hok', hsame, -⟩ :=
    settings_in_force.2.2.2 unsavedHost freshDatabase (hreach unspeakable) hdb
  have hfails : unsavedHost.saveSettings.2 ≠ .ok () := by
    intro hsaved'
    exact absurd (hok'.1 hsaved').2 (by decide)
  refine ⟨hreach senseless, ?_, by decide, by decide, hsaved, ?_, hreach unspeakable, hfails,
    hsame hfails⟩
  · show defaultHost.database ≠ none
    rw [hdb]
    simp
  · exact ⟨saved, hstored, hmade .default ⟨100, 0⟩⟩

end Host

end Hosting
