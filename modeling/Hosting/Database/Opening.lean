import Hosting.Database.File
import Hosting.Text.Quoted

/-! # Opening a database

    Opening a database makes the directories above its file, finds and makes the file, and
    takes it into use. Each of the three can fail, and is told in its own way; what was
    made until then stays.

    - `OpenFailure.message` and `OpenFailure.causes` are the texts of a failure;
    - `Machine.openDatabase` opens the database of a path.
-/

namespace Hosting

/-- Why a database was not opened. -/
inductive OpenFailure where
  /-- The directory above it could not be made. -/
  | directory (error : OsError)
  /-- The file was not opened. -/
  | refused (fault : DatabaseFault)
  /-- The file was opened, but cannot be used. -/
  | unusable (fault : DatabaseFault)
deriving DecidableEq, Repr

namespace OpenFailure

/-- The text of the failure to open a path. -/
def message (path : FilePath) : OpenFailure → String
  | .directory e => e.message
  | .refused _ => "Failed to open database at " ++ path.quoted
  | .unusable fault => fault.message

/-- The texts of the errors behind it, nearest first. A file that was not opened is named. -/
def causes (path : FilePath) : OpenFailure → List String
  | .directory _ => []
  | .refused .cannotOpen =>
    [DatabaseFault.cannotOpen.message ++ ": " ++ path.text, DatabaseFault.cannotOpen.cause]
  | .refused fault => [fault.message, fault.cause]
  | .unusable fault => [fault.cause]

end OpenFailure

namespace Machine

/-- Takes a database file into use, which is made where it is missing. -/
def openPlace (m : Machine) (place : Location) (a : Address) :
    Machine × Except OpenFailure Database :=
  match m.files.makeFile place a.mode with
  | .error e => (m, .error (.refused e))
  | .ok files =>
    match files.attach place a.mode a.keeping with
    | .error e => (m.withFiles files, .error (.unusable e))
    | .ok (files, db) => (m.withFiles files, .ok db)

/-- Opens the database of an address. -/
def openAddress (m : Machine) (a : Address) : Machine × Except OpenFailure Database :=
  match a.file with
  | none => (m, .ok ⟨.empty, a.mode ≠ .read, .memory⟩)
  | some file =>
    match m.databasePlace? file with
    | none => (m, .error (.refused .cannotOpen))
    | some place => m.openPlace place a

/-- Opens the database of a path in a directory that exists. -/
def openFile (m : Machine) (path : FilePath) : Machine × Except OpenFailure Database :=
  match Address.ofPath path with
  | .error e => (m, .error (.refused e))
  | .ok a => m.openAddress a

/-- Opens the database of a path, in a directory that is made where it is missing. -/
def openDatabase (m : Machine) (path : FilePath) : Machine × Except OpenFailure Database :=
  match m.makeParent path with
  | (m, .error e) => (m, .error (.directory e))
  | (m, .ok ()) => m.openFile path

/-- Keeps the tables of a database in its file. -/
def keepDatabase (m : Machine) (db : Database) : Machine :=
  m.withFiles (m.files.keep db)

/-- Keeps the tables of a database and closes it. -/
def closeDatabase (m : Machine) (db : Database) : Machine :=
  m.withFiles ((m.files.keep db).close db)

end Machine

end Hosting
