import Hosting.Machine

/-! # Edits of the file tree

    What an administrator does to the files while a host runs: directories and files come
    and go. An edit says which places it changes, so that those who watch them can be told.

    - `Machine.apply` makes an edit as far as it is possible;
    - `Machine.changesTo` lists the changed places.
-/

namespace Hosting

/-- A change made from outside. -/
inductive Edit where
  /-- Makes a directory and those above it. -/
  | directory (path : FilePath)
  /-- Writes a file, in a directory that is made where it is missing. -/
  | file (path : FilePath) (text : String)
  /-- Makes a symbolic link with a literal target. -/
  | link (path : FilePath) (target : String)
  /-- Removes a file, a link, or a directory with all it holds. -/
  | remove (path : FilePath)
deriving DecidableEq, Repr

namespace Machine

/-- The machine after a change, if the change was possible. -/
def orSame (m : Machine) : Except OsError Machine → Machine
  | .ok changed => changed
  | .error _ => m

/-- The machine after a change in a directory that is made where it is missing. -/
def inParent (m : Machine) (path : FilePath) (change : Machine → Except OsError Machine) :
    Machine :=
  match m.makeParent path with
  | (m, .error _) => m
  | (m, .ok ()) => m.orSame (change m)

/-- The machine after an edit. -/
def apply (m : Machine) : Edit → Machine
  | .directory path => (m.makeDirectories path).1
  | .file path text => m.inParent path (·.writeFile path (.text text))
  | .link path target => m.inParent path (·.makeLink path target)
  | .remove path => m.orSame (m.remove path)

/-- The machine after edits in order. -/
def applyAll (m : Machine) (es : List Edit) : Machine :=
  es.foldl apply m

/-! ### Changed places -/

/-- The places of a machine. -/
def places (m : Machine) : List Location :=
  m.files.places

/-- The place that an edit writes to, even if it writes what was there. -/
def written? (m : Machine) : Edit → Option Location
  | .file path _ => (m.resolve path).toOption
  | _ => none

/-- The places that are not the same on two machines: those gone, deepest first, and then those
    made or changed, from above. -/
def changesTo (before after : Machine) (e : Edit) : List Location :=
  let gone := before.places.filter fun place => (after.files.entryAt place).isNone
  let come := after.places.filter fun place =>
    before.files.entryAt place != after.files.entryAt place || after.written? e == some place
  gone.mergeSort (fun a b => b.length ≤ a.length) ++
    come.mergeSort fun a b => a.length ≤ b.length

end Machine

end Hosting
