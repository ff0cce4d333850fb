/-! # Faults of a database

    A database answers a request that it refuses with a fault, which has a text of its own
    and a numbered cause behind it.
-/

namespace Hosting

/-- Why a database refused a request. -/
inductive DatabaseFault where
  /-- A statement names a table that does not exist. -/
  | noTable (name : String)
  /-- A statement would change a database that is only read. -/
  | readOnly
  /-- The file cannot be opened, or one that is needed beside it. -/
  | cannotOpen
  /-- The file holds something else. -/
  | notDatabase
  /-- The file cannot be read, or one that is needed beside it. -/
  | notRead
  /-- A file that is in the way cannot be deleted. -/
  | notDeleted
  /-- The address is one of another computer. -/
  | foreignAuthority (name : String)
  /-- An option of the address, an access or a cache mode, has an unknown value. -/
  | noSuchMode (option value : String)
  /-- The access mode of the address allows more than an earlier one. -/
  | modeRefused (value : String)
  /-- The address names a file system that does not exist. -/
  | noSuchSystem (name : String)
deriving DecidableEq, Repr

namespace DatabaseFault

/-- The text of a fault. -/
def message : DatabaseFault → String
  | .noTable name => "no such table: " ++ name
  | .readOnly => "attempt to write a readonly database"
  | .cannotOpen => "unable to open database file"
  | .notDatabase => "file is not a database"
  | .notRead => "disk I/O error"
  | .notDeleted => "disk I/O error"
  | .foreignAuthority name => "invalid uri authority: " ++ name
  | .noSuchMode option value => "no such " ++ option ++ " mode: " ++ value
  | .modeRefused value => "access mode not allowed: " ++ value
  | .noSuchSystem name => "no such vfs: " ++ name

/-- The number of the cause behind a fault, and its text. -/
def code : DatabaseFault → Nat × String
  | .readOnly => (8, "Attempt to write a readonly database")
  | .cannotOpen => (14, "Unable to open the database file")
  | .notDatabase => (26, "File opened that is not a database file")
  | .notRead => (266, "Error reading from disk")
  | .notDeleted => (2570, "I/O error within xDelete of a VFS object")
  | .modeRefused _ => (3, "Access permission denied")
  | .noTable _ | .foreignAuthority _ | .noSuchMode .. | .noSuchSystem _ =>
    (1, "SQL error or missing database")

/-- The text of the cause behind a fault. -/
def cause (f : DatabaseFault) : String :=
  "Error code " ++ toString f.code.1 ++ ": " ++ f.code.2

end DatabaseFault

end Hosting
