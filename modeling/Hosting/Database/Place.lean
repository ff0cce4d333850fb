import Hosting.Machine

/-! # Places of database files

    The place of a database file is found name by name, in a way of its own: `..` takes the
    last name away whether there is such a place or not, and names that do not exist are
    only refused when the file is opened. No place on the way may be too long, and files
    beside the database need room for longer names.

    - `FileTree.locate` follows names across links;
    - `Machine.databasePlace?` is the place that a path stands for.
-/

namespace Hosting

namespace FileTree

/-- The number of bytes that the place of a database may have. -/
def maxDatabasePathSize : Nat := 511

/-- The number of bytes that are kept for the names of the files beside a database. -/
def maxSuffixSize : Nat := 8

/-- The number of symbolic links that the path of a database may lead across. -/
def maxDatabaseLinks : Nat := 201

/-- A name that cannot be looked up: one below a file, or too long for a directory. -/
def isBlocked (t : FileTree) (above : Location) (name : String) : Bool :=
  match t.entryAt above with
  | none => false
  | some .directory => 255 < name.utf8ByteSize
  | some _ => true

/-- Follows names. Where a link is met, `jump` goes on from the place the target starts at, along
    the names of the target and then the rest. -/
def locateWith (t : FileTree) (jump : Location → List String → Option Location) :
    Location → List String → Option Location
  | here, [] => some here
  | here, name :: rest =>
    if name = "." then t.locateWith jump here rest
    else if name = ".." then t.locateWith jump here.dropLast rest
    else if maxDatabasePathSize < pathSize (here ++ [name]) || t.isBlocked here name then none
    else
      match t.entryAt (here ++ [name]) with
      | some (.link target) =>
        jump (if target.toList.head? = some '/' then [] else here) (names target ++ rest)
      | _ => t.locateWith jump (here ++ [name]) rest

/-- Follows names across at most `links` symbolic links. -/
def locate (t : FileTree) : Nat → Location → List String → Option Location
  | 0 => t.locateWith fun _ _ => none
  | links + 1 => t.locateWith (t.locate links)

end FileTree

namespace Machine

/-- The place of the database file that a path stands for. -/
def databasePlace? (m : Machine) (path : FilePath) : Option Location :=
  match m.files.locate FileTree.maxDatabaseLinks (m.origin path) (FileTree.names path.text) with
  | none => none
  | some place =>
    if place = [] ∨ FileTree.maxDatabasePathSize + 1 < FileTree.pathSize place +
        FileTree.maxSuffixSize then none
    else some place

end Machine

end Hosting
