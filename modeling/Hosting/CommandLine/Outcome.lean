import Hosting.Database.Opening
import Hosting.Failure
import Hosting.Text.Quoted

/-! # Outcomes of the program

    A run of the program ends with an exit code and two texts. A failure is told with its
    causes below it, numbered where there are several.

    - `Outcome.done` and `Outcome.failed` are the two ways to end;
    - `errorReport` is the text of a failure.
-/

namespace Hosting

/-- How a run of the program ends. -/
structure Outcome where
  code : Nat
  output : String
  errors : String
deriving DecidableEq, Repr

namespace Outcome

/-- A text with `margin` at the start of each line after the first. -/
def indented (margin : List Char) (text : String) : List Char :=
  text.toList.flatMap fun c => if c = '\n' then '\n' :: margin else [c]

/-- A cause that is the only one. -/
def singleCause (text : String) : List Char :=
  "    ".toList ++ indented "    ".toList text ++ ['\n']

/-- A cause with its number, which takes five columns. -/
def numberedCause (number : Nat) (text : String) : List Char :=
  let digits := Nat.toDigits 10 number
  List.replicate (5 - digits.length) ' ' ++ digits ++ [':', ' '] ++
    indented "       ".toList text ++ ['\n']

/-- The causes from a number on. -/
def numberedCauses : Nat → List String → List Char
  | _, [] => []
  | n, text :: rest => numberedCause n text ++ numberedCauses (n + 1) rest

/-- The text of a failure. -/
def errorReport (message : String) (causes : List String) : String :=
  let below :=
    match causes with
    | [] => []
    | [cause] => "\nCaused by:\n".toList ++ singleCause cause
    | causes => "\nCaused by:\n".toList ++ numberedCauses 0 causes
  "Error: " ++ message ++ "\n" ++ .ofList below

/-- A run that went well. -/
def done (output : String) : Outcome := ⟨0, output, ""⟩

/-- A run that failed. -/
def failed (message : String) (causes : List String) : Outcome :=
  ⟨1, "", errorReport message causes⟩

/-- A run that failed with an error of the host or its database. -/
def ofFailure (e : Failure) : Outcome :=
  failed e.message e.causes

/-- A run that failed with an error of the host. -/
def ofHostError (e : HostError) : Outcome :=
  ofFailure (.host e)

/-- A run whose database was not opened. -/
def ofOpenFailure (path : FilePath) (e : OpenFailure) : Outcome :=
  failed (e.message path) (e.causes path)

end Outcome

end Hosting
