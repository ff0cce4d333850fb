import Hosting.Database.Tables
import Hosting.OsError
import Hosting.Text.Pieces

/-! # File trees

    A file tree is an entry with the entries below it by name. A location is the list of
    names from the root. Symbolic links keep the text of their target, and `walk` follows
    them.

    - `entryAt` looks at a location without following links;
    - `put` and `erase` change what stands at a location;
    - `walk` leads from a directory along the steps of a path, as the operating system
      does: every name but the last has to be a directory, `..` goes up from where a link
      has led, and after forty links it gives up;
    - `childNames` are the names directly below a directory, `places` all locations.
-/

namespace Hosting

/-- The names from the root to a place in the tree. -/
abbrev Location := List String

/-- What a regular file holds. -/
inductive Content where
  | text (value : String)
  /-- The tables of a database, and whether what is new in it goes to a log beside it first. -/
  | database (tables : Tables) (logged : Bool)
  /-- The log of a database, with the tables as they have become. -/
  | log (tables : Tables)
  /-- The index of a log. -/
  | index
deriving DecidableEq, Repr

/-- What can stand at a location. -/
inductive Entry where
  | directory
  | file (content : Content)
  | link (target : String)
deriving DecidableEq, Repr

/-- An entry and what is below it. The first of a name counts, and only a directory is given
    anything below. -/
inductive FileTree where
  | node (entry : Entry) (children : List (String × FileTree))

namespace FileTree

/-- A tree with nothing but the root. -/
def empty : FileTree := .node .directory []

/-- What stands at the root. -/
def entry : FileTree → Entry
  | .node entry _ => entry

/-- What is directly below the root, by name. -/
def children : FileTree → List (String × FileTree)
  | .node _ children => children

/-- What is below the root under a name. -/
def child? (t : FileTree) (name : String) : Option FileTree :=
  t.children.lookup name

/-- The tree at a location. -/
def subtree? : FileTree → Location → Option FileTree
  | t, [] => some t
  | t, name :: rest =>
    match t.child? name with
    | none => none
    | some child => child.subtree? rest

/-- What stands at a location, links not followed. -/
def entryAt (t : FileTree) (place : Location) : Option Entry :=
  (t.subtree? place).map entry

/-- The names directly below a directory, each once. -/
def childNames (t : FileTree) (dir : Location) : List String :=
  match t.subtree? dir with
  | none => []
  | some here => (here.children.map (·.1)).eraseDups

mutual

/-- The locations below the root. -/
def places : FileTree → List Location
  | .node _ children => placesBelow children

/-- The locations of named trees and below them. -/
def placesBelow : List (String × FileTree) → List Location
  | [] => []
  | (name, t) :: rest => [name] :: (t.places.map (name :: ·) ++ placesBelow rest)

end

/-! ### Following a path -/

/-- The names between the slashes of a path text. -/
def names (path : String) : List String :=
  ((Text.segments path.toList).filter (· ≠ [])).map String.ofList

/-- The steps that a path text asks for. A trailing slash asks for a directory, which is what a
    last step `.` does. -/
def steps (path : String) : List String :=
  if path.toList.getLast? = some '/' then names path ++ ["."] else names path

/-- Follows the steps from the directory `here` over locations that fit. Where a link is met,
    `jump` goes on from the place the target starts at, along the steps of the target and then
    the rest. -/
def walkWith (t : FileTree) (fits : Location → Bool)
    (jump : Location → List String → Except OsError Location) :
    Location → List String → Except OsError Location
  | here, [] => .ok here
  | here, step :: rest =>
    if t.entryAt here ≠ some .directory then .error .notDirectory
    else if step = "." then t.walkWith fits jump here rest
    else if step = ".." then t.walkWith fits jump here.dropLast rest
    else if 255 < step.utf8ByteSize || !fits (here ++ [step]) then .error .nameTooLong
    else
      match t.entryAt (here ++ [step]) with
      | none => .error .notFound
      | some (.link target) =>
        jump (if target.toList.head? = some '/' then [] else here) (steps target ++ rest)
      | some _ => t.walkWith fits jump (here ++ [step]) rest

/-- Follows the steps from the directory `here` across at most `links` symbolic links. -/
def walk (t : FileTree) (fits : Location → Bool) :
    Nat → Location → List String → Except OsError Location
  | 0 => t.walkWith fits fun _ _ => .error .tooManyLinks
  | links + 1 => t.walkWith fits (t.walk fits links)

/-- The number of symbolic links that one path may lead across. -/
def maxLinks : Nat := 40

/-- The number of bytes that a path may have. -/
def maxPathSize : Nat := 4095

/-- The number of bytes of the path that leads from the root to a location. -/
def pathSize : Location → Nat
  | [] => 0
  | name :: rest => 1 + name.utf8ByteSize + pathSize rest

/-! ### Changing the tree -/

/-- The tree with another one under a name, in place of what was there. -/
def withChild (t : FileTree) (name : String) (child : FileTree) : FileTree :=
  .node t.entry ((name, child) :: t.children.filter (·.1 ≠ name))

/-- Puts an entry at a location, in place of the one that was there. -/
def put : FileTree → Location → Entry → FileTree
  | t, [], entry => .node entry t.children
  | t, name :: rest, entry => t.withChild name (((t.child? name).getD empty).put rest entry)

/-- Removes a location and everything below it. The root stays. -/
def erase : FileTree → Location → FileTree
  | t, [] => t
  | t, [name] => .node t.entry (t.children.filter (·.1 ≠ name))
  | t, name :: rest =>
    match t.child? name with
    | none => t
    | some child => t.withChild name (child.erase rest)

end FileTree

end Hosting
