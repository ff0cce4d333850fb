import Hosting.Database.Address
import Hosting.Database.Basic
import Hosting.Database.Place

/-! # Database files

    A database lives in a file. What changes goes to a log beside the file first, and into
    the file when the database is closed; the log has an index, which is a third file. A
    file of at most one byte is a database that was never used, and a file with anything
    else in it is refused.

    - `makeFile` makes the file where it is missing;
    - `found` says what is in it, and `attach` takes it into use;
    - `keep` writes the tables of an open database, `refresh` reads them again, and `close`
      brings the log into the file.
-/

namespace Hosting

/-- What a file reads as, if that is a text. A database without tables takes one page of
    characters, kept here as zeros; one with tables, a log and an index hold other bytes too. -/
def Content.text? : Content → Option String
  | .text value => some value
  | .database tables _ =>
    if tables = .empty then some (.ofList (List.replicate 4096 (.ofNat 0))) else none
  | .log _ => none
  | .index => none

namespace FileTree

/-! ### Files beside a database -/

/-- The place beside another one, with more at the end of its name. -/
def beside (place : Location) (suffix : String) : Location :=
  place.dropLast ++ [place.getLast?.getD "" ++ suffix]

/-- The place of the log of a database. -/
def logPlace (place : Location) : Location :=
  beside place "-wal"

/-- The place of the index of the log. -/
def indexPlace (place : Location) : Location :=
  beside place "-shm"

/-- The place of the journal of a change that is made without a log. -/
def journalPlace (place : Location) : Location :=
  beside place "-journal"

/-- There is a directory at a place. -/
def hasDirectory (t : FileTree) (place : Location) : Bool :=
  t.entryAt place == some .directory

/-- There is a log, or something else in its place. -/
def hasLog (t : FileTree) (place : Location) : Bool :=
  match t.entryAt (logPlace place) with
  | none => false
  | some (.file (.text value)) => value ≠ ""
  | some _ => true

/-- The tables in the log. -/
def logTables? (t : FileTree) (place : Location) : Option Tables :=
  match t.entryAt (logPlace place) with
  | some (.file (.log tables)) => some tables
  | _ => none

/-- The tables in a database file itself. -/
def fileTables? (t : FileTree) (place : Location) : Option Tables :=
  match t.entryAt place with
  | some (.file (.database tables _)) => some tables
  | _ => none

/-- The tables of a database as they have become. -/
def liveTables (t : FileTree) (place : Location) : Tables :=
  ((t.logTables? place).orElse fun _ => t.fileTables? place).getD .empty

/-! ### Opening a file -/

/-- Makes a database file where it is missing and the mode allows that. -/
def makeFile (t : FileTree) (place : Location) (mode : Mode) : Except DatabaseFault FileTree :=
  match t.entryAt place with
  | some (.file _) => .ok t
  | some .directory => .error (if mode = .read then .notRead else .cannotOpen)
  | some (.link _) => .error .cannotOpen
  | none =>
    if mode = .create ∧ t.hasDirectory place.dropLast then
      .ok (t.put place (.file (.text "")))
    else .error .cannotOpen

/-- What a file is found to hold. -/
inductive Found where
  /-- A database that was never used. -/
  | nothing
  | database (tables : Tables) (logged : Bool)
deriving DecidableEq, Repr

/-- What is in a file, the log left aside. -/
def foundAlone (t : FileTree) (place : Location) : Except DatabaseFault Found :=
  match t.entryAt place with
  | some (.file (.database tables logged)) => .ok (.database tables logged)
  | some (.file (.text value)) =>
    if value.utf8ByteSize ≤ 1 then .ok .nothing else .error .notDatabase
  | _ => .error .notDatabase

/-- What is in a file and in the log beside it. -/
def found (t : FileTree) (place : Location) : Except DatabaseFault Found :=
  match t.foundAlone place with
  | .ok .nothing =>
    if t.hasDirectory (logPlace place) then .error .notDeleted else .ok .nothing
  | alone =>
    if t.hasDirectory (journalPlace place) then .error .notRead
    else if t.hasDirectory (logPlace place) then .error .cannotOpen
    else
      match t.logTables? place with
      | some tables => .ok (.database tables true)
      | none => alone

/-- The tables of what was found. -/
def Found.tables : Found → Tables
  | .nothing => .empty
  | .database tables _ => tables

/-- Gives a file a log. The first change of a file is made by way of a journal. -/
def startLog (t : FileTree) (place : Location) (mode : Mode) :
    Found → Except DatabaseFault FileTree
  | .nothing =>
    let journal := journalPlace place
    if mode = .read then .error .readOnly
    else if t.hasDirectory journal || t.isBlocked journal.dropLast (journal.getLast?.getD "") then
      .error .cannotOpen
    else .ok ((t.erase (logPlace place)).put place (.file (.database .empty true)))
  | .database tables false =>
    if mode = .read then .error .readOnly
    else .ok (t.put place (.file (.database tables true)))
  | .database _ true =>
    if t.hasLog place then .ok t
    else .ok ((t.put (logPlace place) (.file (.text ""))).put (indexPlace place) (.file .index))

/-- Takes a file into use. -/
def attach (t : FileTree) (place : Location) (mode : Mode) :
    Keeping → Except DatabaseFault (FileTree × Database)
  | .fixed => (t.foundAlone place).map fun f => (t, ⟨f.tables, false, .memory⟩)
  | .direct =>
    match t.found place with
    | .error e => .error e
    | .ok (.database _ true) => .error .cannotOpen
    | .ok f => .ok (t, ⟨f.tables, mode ≠ .read, .file place false⟩)
  | .logged =>
    match t.found place with
    | .error e => .error e
    | .ok f =>
      (t.startLog place mode f).map fun t => (t, ⟨f.tables, mode ≠ .read, .file place true⟩)

/-! ### Open databases -/

/-- Keeps the tables of a database in its file, or in the log beside it. -/
def keep (t : FileTree) (db : Database) : FileTree :=
  match db.storage with
  | .memory => t
  | .file place logged =>
    if t.liveTables place = db.tables then t
    else if logged then
      (t.put (logPlace place) (.file (.log db.tables))).put (indexPlace place) (.file .index)
    else t.put place (.file (.database db.tables false))

/-- The database with the tables as they have become. One whose file is gone lives on alone. -/
def refresh (t : FileTree) (db : Database) : Database :=
  match db.storage with
  | .memory => db
  | .file place _ =>
    match t.entryAt place with
    | some (.file _) => { db with tables := t.liveTables place }
    | _ => { db with storage := .memory }

/-- Brings the log of a database into the file. -/
def close (t : FileTree) (db : Database) : FileTree :=
  match db.storage, db.writable with
  | .file place true, true =>
    ((t.put place (.file (.database (t.liveTables place) true))).erase (logPlace place)).erase
      (indexPlace place)
  | _, _ => t

end FileTree

end Hosting
