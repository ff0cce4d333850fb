import Hosting.FilePath
import Hosting.OsError

/-! # Errors of a host

    What can go wrong while an application is deployed or prepared. A lookup that the white
    list denies is told in the words of a missing context.

    - `HostError.message` is the text of an error, `HostError.causes` the texts below it.
-/

namespace Hosting

/-- Why a configuration processor failed. -/
inductive ProcessorError where
  /-- A file could not be read. -/
  | read (path : FilePath) (error : OsError)
  | invalid (text : String)
deriving DecidableEq, Repr

/-- Why an operation on a context failed. -/
inductive HostError where
  | invalidContextPath (raw : String)
  /-- The resource base of a context names nothing usable. -/
  | baseResource (context reason : String)
  /-- The context is started and cannot be changed. -/
  | alreadyStarted (context : String)
  /-- Another context has the same path. -/
  | duplicateContext (context : String)
  | noSuchContext (context : String)
  /-- A configuration processor failed. -/
  | configuration (context name : String) (cause : ProcessorError)
  | io (path : FilePath) (error : OsError)
deriving DecidableEq, Repr

namespace ProcessorError

/-- The text of the error. -/
def message : ProcessorError → String
  | .read path e => "failed to read '" ++ path.text ++ "': " ++ e.message
  | .invalid text => text

/-- The texts of the errors behind it. -/
def causes : ProcessorError → List String
  | .read _ e => [e.message]
  | .invalid _ => []

end ProcessorError

namespace HostError

/-- The text of the error. -/
def message : HostError → String
  | .invalidContextPath raw => "invalid context path '" ++ raw ++ "'"
  | .baseResource context reason =>
    "cannot establish resource base for context '" ++ context ++ "': " ++ reason
  | .alreadyStarted context => "context '" ++ context ++ "' is already started"
  | .duplicateContext context => "a context is already deployed at '" ++ context ++ "'"
  | .noSuchContext context => "no such context '" ++ context ++ "'"
  | .configuration context name cause =>
    "configuration '" ++ name ++ "' failed for context '" ++ context ++ "': " ++ cause.message
  | .io path e => "I/O error on '" ++ path.text ++ "': " ++ e.message

/-- The texts of the errors behind it, nearest first. -/
def causes : HostError → List String
  | .configuration _ _ cause => cause.message :: cause.causes
  | .io _ e => [e.message]
  | _ => []

end HostError

end Hosting
