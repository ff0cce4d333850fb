import Hosting.Classpath
import Hosting.ProtectedTargets

/-! # Settings of a host

    What every hosted application shares. A stored text may leave out any setting, which
    then has its default; values that make no sense are mended by `validated`.
-/

namespace Hosting

/-- The processors that prepare an application unless it or the host names others. -/
def defaultProcessors : List String := ["webinf", "webxml"]

/-- Settings shared by all applications. -/
structure Settings where
  /-- The host's own processor list, used for applications that name no processors. -/
  processors : Option (List String)
  /-- The processor list where there is no other. -/
  builtinProcessors : List String
  archiveExtensions : List String
  classpathDelimiters : String
  /-- Where classpath tokens start; the working directory if not set. -/
  classpathBase : Option FilePath
  systemNames : List String
  serverNames : List String
  protectedTargets : List String
  /-- Where resource bases start; below the data directory if not set. -/
  deployDirectory : Option FilePath
  dataDirectory : Option FilePath
  /-- How many contexts are prepared at the same time. -/
  maxConcurrentStartups : UInt32
  /-- The quiet period between two changes of a context, in milliseconds. -/
  scanIntervalMs : UInt32
  debugLogging : Bool
deriving DecidableEq, Repr

namespace Settings

/-- The settings where nothing is stored. -/
def default : Settings where
  processors := none
  builtinProcessors := defaultProcessors
  archiveExtensions := Classpath.defaultExtensions
  classpathDelimiters := Classpath.defaultDelimiters
  classpathBase := none
  systemNames := Visibility.defaultSystem
  serverNames := Visibility.defaultServer
  protectedTargets := ProtectedTargets.defaultNames
  deployDirectory := none
  dataDirectory := none
  maxConcurrentStartups := 4
  scanIntervalMs := 1000
  debugLogging := false

/-- At least one startup at a time, a quiet period of a tenth of a second, delimiters and
    archive extensions; an empty processor list is none. -/
def validated (s : Settings) : Settings :=
  { s with
    maxConcurrentStartups := max s.maxConcurrentStartups 1
    scanIntervalMs := max s.scanIntervalMs 100
    classpathDelimiters :=
      if s.classpathDelimiters = "" then Classpath.defaultDelimiters else s.classpathDelimiters
    archiveExtensions :=
      if s.archiveExtensions = [] then Classpath.defaultExtensions else s.archiveExtensions
    processors := if s.processors = some [] then none else s.processors }

/-! ### Directories -/

/-- The directory for the host's own files. -/
def dataPath (s : Settings) (m : Machine) : FilePath :=
  s.dataDirectory.getD (m.dataHome.join ⟨"apphost"⟩)

/-- The directory that resource bases start at. -/
def deployPath (s : Settings) (m : Machine) : FilePath :=
  s.deployDirectory.getD ((s.dataPath m).join ⟨"webapps"⟩)

/-- The directory that classpath tokens start at. -/
def classpathPath (s : Settings) (m : Machine) : FilePath :=
  s.classpathBase.getD m.workingPath

/-- The file of the deployment database. -/
def databasePath (s : Settings) (m : Machine) : FilePath :=
  (s.dataPath m).join ⟨"apphost.db"⟩

/-- The rules for classpaths. -/
def classpath (s : Settings) : Classpath :=
  .ofSettings s.archiveExtensions s.classpathDelimiters

/-! ### Stored text -/

/-- The paths in the settings are texts. No JSON text holds settings that have other paths. -/
def isText (s : Settings) : Bool :=
  [s.classpathBase, s.deployDirectory, s.dataDirectory].all (·.all FilePath.isText)

/-- The settings as they stand in a JSON text. -/
def json (s : Settings) : Json :=
  .object
    [("default_configuration_classes", Json.optional Json.texts s.processors),
     ("builtin_configurations", Json.texts s.builtinProcessors),
     ("archive_extensions", Json.texts s.archiveExtensions),
     ("classpath_delimiters", .text s.classpathDelimiters),
     ("classpath_base", Json.optional FilePath.json s.classpathBase),
     ("system_classes", Json.texts s.systemNames),
     ("server_classes", Json.texts s.serverNames),
     ("protected_targets", Json.texts s.protectedTargets),
     ("deploy_directory", Json.optional FilePath.json s.deployDirectory),
     ("data_directory", Json.optional FilePath.json s.dataDirectory),
     ("max_concurrent_startups", .number s.maxConcurrentStartups.toNat),
     ("scan_interval_ms", .number s.scanIntervalMs.toNat),
     ("debug_logging", .bool s.debugLogging)]

/-- A list of strings. -/
def readTexts : Reader (List String) := Json.readList Json.readText

/-- The members of stored settings, in the order of their positions. -/
def fields : List (Json.Field Settings) :=
  [Json.field "default_configuration_classes" (Json.readOption readTexts) fun s v =>
     { s with processors := v },
   Json.field "builtin_configurations" readTexts fun s v => { s with builtinProcessors := v },
   Json.field "archive_extensions" readTexts fun s v => { s with archiveExtensions := v },
   Json.field "classpath_delimiters" Json.readText fun s v => { s with classpathDelimiters := v },
   Json.field "classpath_base" (Json.readOption FilePath.reader) fun s v =>
     { s with classpathBase := v },
   Json.field "system_classes" readTexts fun s v => { s with systemNames := v },
   Json.field "server_classes" readTexts fun s v => { s with serverNames := v },
   Json.field "protected_targets" readTexts fun s v => { s with protectedTargets := v },
   Json.field "deploy_directory" (Json.readOption FilePath.reader) fun s v =>
     { s with deployDirectory := v },
   Json.field "data_directory" (Json.readOption FilePath.reader) fun s v =>
     { s with dataDirectory := v },
   Json.field "max_concurrent_startups" Json.readCount fun s v =>
     { s with maxConcurrentStartups := v },
   Json.field "scan_interval_ms" Json.readCount fun s v => { s with scanIntervalMs := v },
   Json.field "debug_logging" Json.readBool fun s v => { s with debugLogging := v }]

/-- Reads settings that change `s`. -/
def readerFrom (s : Settings) : Reader Settings := Json.record fields s

/-- Reads stored settings: a setting that is left out has its default. -/
def reader : Reader Settings := readerFrom default

/-- The settings that a stored text holds. -/
def ofText (text : String) : Except Json.Fault Settings :=
  Json.readAll reader text

/-- The text to store. -/
def toText (s : Settings) : String :=
  s.json.toText

end Settings

end Hosting
