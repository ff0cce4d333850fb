import Hosting.Database.Fault
import Hosting.HostError

/-! # Failures of operations

    An operation of the host or of its database fails for one of six causes. Some of them
    are told with a text about what was going on.
-/

namespace Hosting

/-- Why an operation of a host or a database failed. -/
inductive Failure where
  | host (error : HostError)
  /-- An error of a host, in the course of something. -/
  | during (doing : String) (error : HostError)
  /-- A statement was refused by the database. -/
  | database (fault : DatabaseFault)
  /-- A stored text could not be read. -/
  | stored (doing : String) (fault : Json.Fault)
  /-- There is a path that no stored text can hold. -/
  | notText
  /-- The state of the host has changed in between. -/
  | conflict (text : String)
deriving DecidableEq, Repr

namespace Failure

/-- The error of a host behind it. -/
def hostError? : Failure → Option HostError
  | .host e => some e
  | .during _ e => some e
  | _ => none

/-- The outermost text. -/
def message : Failure → String
  | .host e => e.message
  | .during doing _ => doing
  | .database fault => fault.message
  | .stored doing _ => doing
  | .notText => "path contains invalid UTF-8 characters"
  | .conflict text => text

/-- The texts behind the outermost one, nearest first. -/
def causes : Failure → List String
  | .host e => e.causes
  | .during _ e => e.message :: e.causes
  | .database fault => [fault.cause]
  | _ => []

/-- An error of a host, with what was going on. -/
def withDoing {α : Type} (doing : String) : Except HostError α → Except Failure α
  | .ok v => .ok v
  | .error e => .error (.during doing e)

end Failure

end Hosting
