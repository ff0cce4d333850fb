import Hosting.CommandLine.Help
import Hosting.CommandLine.Outcome
import Hosting.Host.Startup

/-! # Running a command

    Each run of the program opens the deployment database in the data directory, restores
    the host from it, and carries out one command. The tables are kept in the database file
    whether the command goes well or not.

    - `Command.run` carries out a command on a host;
    - `Invocation.run` does so on a machine;
    - `Program.run` is the whole program.
-/

namespace Hosting

namespace Command

/-! ### Commands on a host -/

/-- Registers the application of a descriptor file. -/
def runDeploy (h : Host) (m : Machine) (file : FilePath) : Host × Outcome :=
  let unread := "Failed to read descriptor " ++ file.quoted
  match m.contentOf file with
  | .error e => (h, .failed unread [e.message])
  | .ok content =>
    match content.text? with
    | none => (h, .failed unread ["stream did not contain valid UTF-8"])
    | some text =>
      match Descriptor.ofText text with
      | .error _ => (h, .failed ("Invalid descriptor " ++ file.quoted) [])
      | .ok d =>
        match h.deploy d with
        | (h, .error e) => (h, .ofFailure e)
        | (h, .ok path) => (h, .done ("Deployed " ++ path.text ++ "\n"))

/-- Removes an application. -/
def runUndeploy (h : Host) (raw : String) : Host × Outcome :=
  match ContextPath.parse raw with
  | .error e => (h, .ofHostError e)
  | .ok path =>
    match h.undeploy path with
    | (h, .error e) => (h, .ofFailure e)
    | (h, .ok _) => (h, .done ("Undeployed " ++ path.text ++ "\n"))

/-- The line for an application in the list. -/
def listLine (c : Context) : String :=
  c.path.text ++ " " ++ HelpPage.padded 24 c.displayName ++ " " ++ c.resourceBase ++
    "  (deployed " ++ c.deployedAt.plainText ++ ")\n"

/-- The registered applications. -/
def listText (h : Host) : String :=
  if h.contexts.values.isEmpty then "No applications deployed\n"
  else String.join (h.contexts.values.map listLine)

/-- The line for an event. -/
def eventLine (e : EventRow) : String :=
  match e.details with
  | some details => e.time ++ "  " ++ HelpPage.padded 11 e.event ++ " " ++ details ++ "\n"
  | none => e.time ++ "  " ++ e.event ++ "\n"

/-- Shows the events of one application. -/
def runHistory (h : Host) (raw : String) : Outcome :=
  match ContextPath.parse raw with
  | .error e => .ofHostError e
  | .ok path =>
    match h.history path with
    | .error e => .ofFailure e
    | .ok [] => .done ("No events recorded for " ++ path.text ++ "\n")
    | .ok events => .done (String.join (events.map eventLine))

/-! ### The summary of a start -/

/-- The line for the processors of a context. -/
def processorsLine (list : ProcessorList) : String :=
  "    configurations (" ++ list.source.label ++ "): " ++ ", ".intercalate list.identifiers ++ "\n"

/-- What was started, or why it was not. -/
def resultText (c : Context) : Except HostError Unit → String
  | .ok () =>
    c.path.text ++ "  " ++ c.state.label ++ "\n" ++
      ((c.processors.map processorsLine).getD "") ++
      String.join (c.libraries.locations.map fun l => "    library " ++ l ++ "\n")
  | .error e => c.path.text ++ "  " ++ c.state.label ++ ": " ++ e.message ++ "\n"

/-- The summary of the contexts that are still registered. -/
def summary (h : Host) (results : List Host.StartupResult) : String :=
  String.join (results.map fun result =>
    ((h.contexts.get? result.1).map fun c => resultText c result.2).getD "")

/-- Carries out a command. -/
def run (h : Host) (m : Machine) : Command → Host × Outcome
  | .deploy file => runDeploy h m file
  | .undeploy raw => runUndeploy h raw
  | .list => (h, .done (listText h))
  | .history raw => (h, runHistory h raw)
  | .start _ =>
    let (h, results) := h.startAll m
    (h, .done (summary h results))

end Command

/-! ### Runs on a machine -/

namespace Invocation

/-- The file of the deployment database. -/
def databasePath (i : Invocation) (m : Machine) : FilePath :=
  (i.dataDirectory.getD (Settings.default.dataPath m)).join ⟨"apphost.db"⟩

/-- The host with the data directory that was given. -/
def adjust (i : Invocation) (h : Host) : Host :=
  match i.dataDirectory with
  | none => h
  | some dir => h.updateSettings fun s => { s with dataDirectory := some dir }

/-- Carries out the command with the deployment database, which has its tables. -/
def runOn (i : Invocation) (m : Machine) (db : Database) (supply : Supply) :
    Database × Supply × Outcome :=
  match Host.restore db .default supply with
  | .error e => (db, supply, .ofFailure e)
  | .ok h =>
    let (h, outcome) := i.command.run (i.adjust h) m
    (h.database.getD db, h.supply, outcome)

/-- Opens the deployment database, makes its tables, carries out the command, and closes the
    database. -/
def run (i : Invocation) (m : Machine) (supply : Supply) : Machine × Supply × Outcome :=
  let path := i.databasePath m
  match m.openDatabase path with
  | (m, .error e) => (m, supply, .ofOpenFailure path e)
  | (m, .ok db) =>
    match db.makeTables with
    | .error e => (m.closeDatabase db, supply, .ofFailure e)
    | .ok db =>
      let m := m.keepDatabase db
      let (db, supply, outcome) := i.runOn m db supply
      (m.closeDatabase db, supply, outcome)

end Invocation

/-! ### The program -/

namespace Program

/-- The name and version of the program. -/
def versionText : String := "apphost 1.0.0\n"

/-- What a misused command line is answered with. -/
def misuse : Outcome :=
  ⟨2, "", "Usage: apphost" ++ (Topic.page .program).usage ++ "\n"⟩

/-- Runs the program with its arguments. -/
def run (m : Machine) (supply : Supply) (arguments : List String) :
    Machine × Supply × Outcome :=
  match Request.ofArguments arguments with
  | none => (m, supply, misuse)
  | some .version => (m, supply, .done versionText)
  | some (.help topic) => (m, supply, .done topic.page.text)
  | some (.run invocation) => invocation.run m supply

end Program

end Hosting
