import Hosting.CommandLine.Session

/-! # The program

    Standard input holds the acts of a session, one a line: the edits that set up the
    machine, and earlier runs. After them the program runs with its own arguments, and what
    that run says is printed.
-/

namespace Hosting

/-- Prints both texts of an outcome. -/
def Outcome.print (o : Outcome) : IO Unit := do
  IO.print o.output
  IO.eprint o.errors

end Hosting

/-- Carries out the session on standard input and runs the program in it. -/
def main (arguments : List String) : IO UInt32 := do
  let acts ← (← IO.getStdin).lines
  let started := Hosting.Session.ofStart 0
  let session := acts.foldl (fun s line => (s.performText line).1) started
  let (_, outcome) := session.run arguments
  outcome.print
  return .ofNat outcome.code
