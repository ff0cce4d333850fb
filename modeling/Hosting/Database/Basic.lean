import Hosting.Database.Statements
import Hosting.FileTree.Basic

/-! # Databases

    An open database is its tables, whether they may be changed, and where they are kept.
    A statement works on the tables; a database that is only read refuses what would have
    changed them.

    - `change` carries out a statement;
    - `makeTables` makes the tables that are missing.
-/

namespace Hosting

/-- Where the tables of an open database are kept. -/
inductive Storage where
  /-- Nowhere else: they are lost with the database. -/
  | memory
  /-- In a file, by way of a log beside it or directly. -/
  | file (place : Location) (logged : Bool)
deriving DecidableEq, Repr

/-- An open database. -/
structure Database where
  tables : Tables
  /-- Changes are accepted. -/
  writable : Bool
  storage : Storage
deriving DecidableEq, Repr

namespace Database

/-- A database of its own, without tables. -/
def inMemory : Database := ⟨.empty, true, .memory⟩

/-- Carries out a statement that changes the tables. -/
def change (db : Database) (f : Tables → Except Failure Tables) : Except Failure Database :=
  match f db.tables with
  | .error e => .error e
  | .ok tables => if db.writable then .ok { db with tables } else .error (.database .readOnly)

/-- Makes the tables that are missing. Where none is, nothing is changed. -/
def makeTables (db : Database) : Except Failure Database :=
  if db.tables.initialized = db.tables then .ok db
  else db.change fun tables => .ok tables.initialized

end Database

end Hosting
