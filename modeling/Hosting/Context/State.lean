import Hosting.Json.Reader

/-! # Lifecycle states

    Where a context is in its life. Only a started context serves requests.
-/

namespace Hosting

/-- The lifecycle state of a context. -/
inductive ContextState where
  /-- Registered, not prepared yet. -/
  | deployed
  /-- Preparation is going on. -/
  | starting
  /-- Prepared; what was prepared does not change any more. -/
  | started
  /-- Preparation failed; other contexts are not affected. -/
  | failed (reason : String)
  /-- Undeployed. -/
  | stopped
deriving DecidableEq, Repr

namespace ContextState

/-- The name of a state. -/
def label : ContextState → String
  | .deployed => "Deployed"
  | .starting => "Starting"
  | .started => "Started"
  | .failed _ => "Failed"
  | .stopped => "Stopped"

/-- The context serves requests. -/
def isAvailable (s : ContextState) : Bool :=
  s == .started

/-- A state as it stands in a JSON text. -/
def json : ContextState → Json
  | .failed reason => .object [("Failed", .text reason)]
  | s => .text s.label

/-- The states by name. Only a failure says more. -/
def cases : List (String × Json.Case ContextState) :=
  [("Deployed", .plain .deployed), ("Starting", .plain .starting), ("Started", .plain .started),
   ("Failed", .carrying (Json.readMap ContextState.failed Json.readText)),
   ("Stopped", .plain .stopped)]

/-- Reads a state. -/
def reader : Reader ContextState := Json.choice cases

end ContextState

end Hosting
