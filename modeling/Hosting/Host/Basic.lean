import Hosting.Context.Preparation
import Hosting.Database.Basic
import Hosting.PathTable

/-! # Hosts

    A host holds the contexts of the deployed applications by path, the descriptors they
    were made from, the settings and the processor registry. It may have a database, which
    then holds every deployment and a history of events.

    - `Supply` gives ids and times that were not used before;
    - `ofSettings` makes a host;
    - `record` writes an event and never fails.
-/

namespace Hosting

/-- Ids and instants that were not used before. -/
structure Supply where
  /-- The second that the first instant is in. -/
  start : Int
  /-- How many were given out. -/
  issued : Nat
deriving DecidableEq, Repr

namespace Supply

/-- The next id. -/
def id (s : Supply) : DeploymentId := ⟨s.issued⟩

/-- The next instant, a microsecond after the one before. -/
def now (s : Supply) : Instant :=
  ⟨s.start + s.issued / 1000000, s.issued % 1000000 * 1000⟩

/-- What is left once the next were given out. -/
def next (s : Supply) : Supply := { s with issued := s.issued + 1 }

end Supply

/-- The registry of deployed applications. -/
structure Host where
  contexts : PathTable Context
  /-- What the contexts were made from, for redeployment. -/
  descriptors : PathTable Descriptor
  settings : Settings
  registry : ProcessorRegistry
  database : Option Database
  supply : Supply

namespace Host

/-- A host without applications and without a database. -/
def ofSettings (settings : Settings) (registry : ProcessorRegistry) (supply : Supply) : Host :=
  { contexts := .empty, descriptors := .empty, settings := settings.validated, registry,
    database := none, supply }

/-- The number of registered contexts. -/
def contextCount (h : Host) : Nat :=
  h.contexts.size

/-- The number of started contexts. -/
def startedCount (h : Host) : Nat :=
  (h.contexts.values.filter (·.state.isAvailable)).length

/-- The host after the next id and instant were given out. -/
def tick (h : Host) : Host :=
  { h with supply := h.supply.next }

/-- What the host lends a context for its preparation. -/
def environment (h : Host) (m : Machine) : Environment :=
  ⟨m, h.settings, h.registry⟩

/-! ### Settings -/

/-- Changes the settings in memory. They are mended, and count from the next preparation on. -/
def updateSettings (h : Host) (f : Settings → Settings) : Host :=
  { h with settings := (f h.settings).validated }

/-- Stores the settings, if there is a database. -/
def saveSettings (h : Host) : Host × Except Failure Unit :=
  match h.database with
  | none => (h, .ok ())
  | some db =>
    match db.change (·.saveSettings h.settings) with
    | .error e => (h, .error e)
    | .ok db => ({ h with database := some db }, .ok ())

/-! ### History -/

/-- Writes an event to the history, if there is one to write to. -/
def record (h : Host) (path : ContextPath) (event : String) (details : Option String) : Host :=
  match h.database with
  | none => h
  | some db =>
    match db.change (·.recordEvent path event details h.supply.now) with
    | .error _ => h.tick
    | .ok db => { h.tick with database := some db }

/-- Writes how a preparation has ended. -/
def recordStartup (h : Host) (path : ContextPath) : Except HostError Unit → Host
  | .ok () => h.record path "started" none
  | .error e => h.record path "failed" (some e.message)

/-- The events of a context, newest first; none without a database. -/
def history (h : Host) (path : ContextPath) : Except Failure (List EventRow) :=
  match h.database with
  | none => .ok []
  | some db => db.tables.eventsOf path

end Host

end Hosting
