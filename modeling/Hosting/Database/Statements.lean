import Hosting.ContextPath
import Hosting.Database.Tables
import Hosting.DeploymentId
import Hosting.Descriptor
import Hosting.Failure
import Hosting.Instant
import Hosting.Settings

/-! # Statements of the deployment database

    Each statement reads or changes one table, and fails if the table does not exist. A
    failed statement changes nothing.

    - deployments are kept by normalised context path, the last one saved for a path;
    - they are loaded by the text of their time and then by path, without the rows whose
      descriptor does not read;
    - events are numbered as they come and listed newest first.
-/

namespace Hosting.Tables

/-- Goes on with a table that exists. -/
def onTable {α β : Type} (name : String) (table : Option α) (f : α → Except Failure β) :
    Except Failure β :=
  match table with
  | none => .error (.database (.noTable name))
  | some rows => f rows

/-! ### Settings -/

/-- The stored settings, mended, if there are any. -/
def loadSettings (t : Tables) : Except Failure (Option Settings) :=
  onTable "settings" t.settings fun stored =>
    match stored with
    | none => .ok none
    | some text =>
      match Settings.ofText text with
      | .error fault => .error (.stored "Failed to deserialize settings" fault)
      | .ok s => .ok (some s.validated)

/-- Stores a settings text. -/
def putSettings (t : Tables) (text : String) : Except Failure Tables :=
  onTable "settings" t.settings fun _ => .ok { t with settings := some (some text) }

/-- Stores settings, if there is a text for them. -/
def saveSettings (t : Tables) (s : Settings) : Except Failure Tables :=
  if s.isText then t.putSettings s.toText else .error .notText

/-! ### Deployments -/

/-- Stores a row in place of one for the same path. -/
def putDeployment (t : Tables) (row : DeploymentRow) : Except Failure Tables :=
  onTable "deployments" t.deployments fun rows =>
    .ok { t with
      deployments := some (rows.filter (·.contextPath ≠ row.contextPath) ++ [row]) }

/-- Stores a deployment under its normalised path. -/
def saveDeployment (t : Tables) (d : Descriptor) (id : DeploymentId) (time : Instant) :
    Except Failure Tables :=
  match ContextPath.parse d.contextPath with
  | .error e => .error (.host e)
  | .ok path => t.putDeployment ⟨path.text, id.text, d.toText, time.text⟩

/-- Removes the deployment of a path, if there is one. -/
def deleteDeployment (t : Tables) (path : ContextPath) : Except Failure Tables :=
  onTable "deployments" t.deployments fun rows =>
    .ok { t with deployments := some (rows.filter (·.contextPath ≠ path.text)) }

/-- A row comes before another: by time, then by path. -/
def earlier (a b : DeploymentRow) : Bool :=
  if a.deployedAt = b.deployedAt then a.contextPath ≤ b.contextPath
  else a.deployedAt ≤ b.deployedAt

/-- The deployed descriptors, by time and path. -/
def loadDeployments (t : Tables) : Except Failure (List Descriptor) :=
  onTable "deployments" t.deployments fun rows =>
    .ok ((rows.mergeSort earlier).filterMap fun row => (Descriptor.ofText row.descriptor).toOption)

/-! ### History -/

/-- Adds an event. -/
def recordEvent (t : Tables) (path : ContextPath) (event : String) (details : Option String)
    (time : Instant) : Except Failure Tables :=
  onTable "deployment_history" t.history fun events =>
    .ok { t with history := some (⟨path.text, event, time.text, details⟩ :: events) }

/-- The events of a context, newest first. -/
def eventsOf (t : Tables) (path : ContextPath) : Except Failure (List EventRow) :=
  onTable "deployment_history" t.history fun events =>
    .ok (events.filter (·.contextPath = path.text))

end Hosting.Tables
