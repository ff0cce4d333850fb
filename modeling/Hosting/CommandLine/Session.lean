import Hosting.CommandLine.Run
import Hosting.FileTree.Edit

/-! # Sessions

    A session is a machine on which files are edited and the program is run, one after the
    other. Each act of a session is written as a JSON text.

    - `Act.ofText` reads an act;
    - `Session.perform` carries it out, and gives the outcome of a run.
-/

namespace Hosting

/-- One act of a session. -/
inductive Act where
  | edit (edit : Edit)
  /-- Runs the program with arguments. -/
  | run (arguments : List String)
deriving DecidableEq, Repr

namespace Act

/-- A path and a text. -/
def readPlaced : Reader (FilePath × String) :=
  Json.readPair FilePath.reader Json.readText

/-- Reads an act. -/
def reader : Reader Act :=
  Json.choice
    [("Directory", .carrying (Json.readMap (fun p => .edit (.directory p)) FilePath.reader)),
     ("File", .carrying (Json.readMap (fun f => .edit (.file f.1 f.2)) readPlaced)),
     ("Link", .carrying (Json.readMap (fun l => .edit (.link l.1 l.2)) readPlaced)),
     ("Remove", .carrying (Json.readMap (fun p => .edit (.remove p)) FilePath.reader)),
     ("Run", .carrying (Json.readMap Act.run (Json.readList Json.readText)))]

/-- The act that a text asks for. -/
def ofText (text : String) : Except Json.Fault Act :=
  Json.readAll reader text

end Act

/-- A machine with the ids and instants that are left. -/
structure Session where
  machine : Machine
  supply : Supply

namespace Session

/-- A session in an empty directory, which also holds the directory for application data. -/
def ofStart (start : Int) : Session :=
  let home : FilePath := .ofNames ["home"]
  let bare : Machine := ⟨.empty, ["home"], home.join ⟨"data"⟩⟩
  ⟨bare.apply (.directory home), ⟨start, 0⟩⟩

/-- Runs the program with arguments. -/
def run (s : Session) (arguments : List String) : Session × Outcome :=
  let (machine, supply, outcome) := Program.run s.machine s.supply arguments
  (⟨machine, supply⟩, outcome)

/-- Carries out an act. -/
def perform (s : Session) : Act → Session × Option Outcome
  | .edit e => ({ s with machine := s.machine.apply e }, none)
  | .run arguments =>
    let (s, outcome) := s.run arguments
    (s, some outcome)

/-- Carries out the act that a text asks for, if it asks for one. -/
def performText (s : Session) (text : String) : Session × Option Outcome :=
  match Act.ofText text with
  | .error _ => (s, none)
  | .ok act => s.perform act

end Session

end Hosting
