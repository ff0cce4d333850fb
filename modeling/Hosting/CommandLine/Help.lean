import Hosting.CommandLine.Usage

/-! # Help texts

    The help on a topic says what it does, how it is written, and what may be given with it,
    in two columns.

    - `HelpPage.text` lays out a help;
    - `Topic.page` has the wording of each.
-/

namespace Hosting

/-- The parts of a help text. -/
structure HelpPage where
  about : String
  /-- What follows the name of the program. -/
  usage : String
  /-- Headings, with rows of two columns below them. -/
  tables : List (String × List (String × String))

namespace HelpPage

/-- A text filled up with blanks to a width. -/
def padded (width : Nat) (s : String) : String :=
  s ++ .ofList (List.replicate (width - s.length) ' ')

/-- The rows of a table, the second column aligned. -/
def rowsText (rows : List (String × String)) : String :=
  let width := (rows.map (·.1.length)).foldl max 0
  String.join (rows.map fun row => "  " ++ padded width row.1 ++ "  " ++ row.2 ++ "\n")

/-- The whole text. -/
def text (h : HelpPage) : String :=
  h.about ++ "\n\nUsage: apphost" ++ h.usage ++ "\n" ++
    String.join (h.tables.map fun table => "\n" ++ table.1 ++ ":\n" ++ rowsText table.2)

end HelpPage

namespace Topic

/-- What a command does. -/
def about : Topic → String
  | .program => "Host multiple isolated applications in one process"
  | .deploy => "Register an application from a JSON descriptor file"
  | .undeploy => "Remove a registered application"
  | .list => "List registered applications"
  | .history => "Show lifecycle events of one application"
  | .start => "Prepare every registered application and print a summary"
  | .help => "Print this message or the help of the given subcommand(s)"

/-- The row for the option that asks for help. -/
def helpRow : String × String := ("-h, --help", "Print help")

/-- The options of a command without options of its own. -/
def onlyHelp : String × List (String × String) := ("Options", [helpRow])

/-- The table of a command that takes a context path. -/
def pathTable : String × List (String × String) :=
  ("Arguments", [("<PATH>", "Context path, e.g. /shop")])

/-- The commands, as the help on the program lists them. -/
def commandRows : List (String × String) :=
  [("deploy", about .deploy), ("undeploy", about .undeploy), ("list", about .list),
   ("history", about .history), ("start", about .start), ("help", about .help)]

/-- The help on a topic. -/
def page (t : Topic) : HelpPage :=
  match t with
  | .program =>
    ⟨t.about, " [OPTIONS] <COMMAND>",
     [("Commands", commandRows),
      ("Options",
       [("    --data-dir <DIR>", "Data directory holding the deployment database"),
        ("-d, --debug", "Enable debug logging"), helpRow, ("-V, --version", "Print version")])]⟩
  | .deploy =>
    ⟨t.about, " deploy <FILE>", [("Arguments", [("<FILE>", "Descriptor file")]), onlyHelp]⟩
  | .undeploy => ⟨t.about, " undeploy <PATH>", [pathTable, onlyHelp]⟩
  | .list => ⟨t.about, " list", [onlyHelp]⟩
  | .history => ⟨t.about, " history <PATH>", [pathTable, onlyHelp]⟩
  | .start =>
    ⟨t.about, " start [OPTIONS]",
     [("Options",
       [("    --watch", "Keep running and redeploy applications whose content changes"),
        helpRow])]⟩
  | .help =>
    ⟨t.about, " help [COMMAND]...",
     [("Arguments", [("[COMMAND]...", "Print help for the subcommand(s)")])]⟩

end Topic

end Hosting
