import Hosting.FilePath
import Hosting.FileTree.Basic

/-! # The machine a host runs on

    What the host can see of its surroundings: the file tree, the working directory and the
    directory for application data. Every question about a path is answered from here, with
    the error that the operating system gives where there is no answer. The names in the
    tree are texts, so the file system is one that refuses every other path.

    - `resolve` follows a path to its location;
    - `kindOf`, `canonical` and `names?` ask what is there;
    - `makeDirectories`, `writeFile`, `makeLink` and `remove` change the tree.
-/

namespace Hosting

/-- The surroundings of a running host. -/
structure Machine where
  files : FileTree
  /-- Where paths that do not start at the root begin. -/
  workingDirectory : Location
  /-- The parent of the default data directory. -/
  dataHome : FilePath

/-- What a path leads to once links are followed. -/
inductive Kind where
  | file
  | directory
deriving DecidableEq, Repr

namespace Machine

/-- The working directory as a path. -/
def workingPath (m : Machine) : FilePath :=
  .ofNames m.workingDirectory

/-- Where a path begins. -/
def origin (m : Machine) (p : FilePath) : Location :=
  if p.isAbsolute then [] else m.workingDirectory

/-- Refuses the paths that lead nowhere. -/
def checkText (p : FilePath) : Except OsError Unit :=
  if p.chars.contains (.char (.ofNat 0)) then .error .zeroInPath
  else if p.chars.isEmpty then .error .notFound
  else if !p.isText then .error .illegalSequence
  else .ok ()

/-- Refuses the paths that are never looked up. -/
def checkPath (p : FilePath) : Except OsError Unit :=
  match checkText p with
  | .error e => .error e
  | .ok () =>
    if FileTree.maxPathSize < p.size then .error .nameTooLong else .ok ()

/-- The location that a path leads to, all links followed. -/
def resolve (m : Machine) (p : FilePath) : Except OsError Location :=
  match checkPath p with
  | .error e => .error e
  | .ok () =>
    m.files.walk (fun _ => true) FileTree.maxLinks (m.origin p) (FileTree.steps p.text)

/-- What stands where the path leads. -/
def kindOf (m : Machine) (p : FilePath) : Except OsError Kind :=
  match m.resolve p with
  | .error e => .error e
  | .ok place =>
    if m.files.entryAt place = some .directory then .ok .directory else .ok .file

/-- The path leads to a directory. -/
def isDirectory (m : Machine) (p : FilePath) : Bool :=
  m.kindOf p matches .ok .directory

/-- The path leads to a regular file. -/
def isFile (m : Machine) (p : FilePath) : Bool :=
  m.kindOf p matches .ok .file

/-- The path from the root without links, `.` and `..`. It is found name by name, so that it does
    not matter how long the given text is, but every path on the way has to be short enough. -/
def canonical (m : Machine) (p : FilePath) : Except OsError FilePath :=
  match checkText p with
  | .error e => .error e
  | .ok () =>
    (m.files.walk (FileTree.pathSize · ≤ FileTree.maxPathSize) FileTree.maxLinks (m.origin p)
      (FileTree.steps p.text)).map .ofNames

/-- The names in the directory that the path leads to. -/
def names? (m : Machine) (p : FilePath) : Option (List String) :=
  match m.resolve p with
  | .error _ => none
  | .ok place =>
    if m.files.entryAt place = some .directory then some (m.files.childNames place) else none

/-- The name in the directory that the path leads to is itself a directory and no link. -/
def holdsDirectory (m : Machine) (p : FilePath) (name : String) : Bool :=
  match m.resolve p with
  | .error _ => false
  | .ok place => m.files.entryAt (place ++ [name]) == some .directory

/-- What the file holds that the path leads to. -/
def contentOf (m : Machine) (p : FilePath) : Except OsError Content :=
  match m.resolve p with
  | .error e => .error e
  | .ok place =>
    match m.files.entryAt place with
    | some (.file content) => .ok content
    | _ => .error .isDirectory

/-! ### Changing the file tree -/

/-- The machine with another file tree. -/
def withFiles (m : Machine) (files : FileTree) : Machine :=
  { m with files }

/-- The directory that would hold what the path names, and the name in it. -/
def parentOf (m : Machine) (p : FilePath) : Except OsError (Location × String) :=
  match checkPath p with
  | .error e => .error e
  | .ok () =>
    let names := FileTree.names p.text
    match names.getLast? with
    | none => .error .alreadyExists
    | some name =>
      match m.files.walk (fun _ => true) FileTree.maxLinks (m.origin p) names.dropLast with
      | .error e => .error e
      | .ok above =>
        if m.files.entryAt above ≠ some .directory then .error .notDirectory
        else if name = "." ∨ name = ".." then .error .alreadyExists
        else if 255 < name.utf8ByteSize then .error .nameTooLong
        else .ok (above, name)

/-- Puts an entry where nothing is yet, and tells where that is. -/
def make (m : Machine) (p : FilePath) (entry : Entry) : Except OsError (Machine × Location) :=
  match m.parentOf p with
  | .error e => .error e
  | .ok (above, name) =>
    let place := above ++ [name]
    if (m.files.entryAt place).isSome then .error .alreadyExists
    else .ok (m.withFiles (m.files.put place entry), place)

/-- What came of making a directory: where it was made, or nothing if it was there before. -/
abbrev Made := Except OsError (Option Location)

/-- Makes a directory, unless it is there. -/
def makeDirectory (m : Machine) (p : FilePath) : Machine × Made :=
  match m.make p .directory with
  | .ok (made, place) => (made, .ok (some place))
  | .error e => (m, if m.isDirectory p then .ok none else .error e)

/-- The last name of a path, unless it is one that stands for another place. -/
def plainName? (p : FilePath) : Option String :=
  match (FileTree.names p.text).getLast? with
  | none => none
  | some name => if name = "." ∨ name = ".." then none else some name

/-- Makes a directory in the one above it. If that was made just now, it is empty, and the new
    one goes right below it. -/
def makeDirectoryIn (m : Machine) (above : Option Location) (p : FilePath) : Machine × Made :=
  match above, plainName? p with
  | some above, some name =>
    if 255 < name.utf8ByteSize then (m, .error .nameTooLong)
    else (m.withFiles (m.files.put (above ++ [name]) .directory), .ok (some (above ++ [name])))
  | _, _ => m.makeDirectory p

/-- Makes a directory and the missing ones above it, at most `n` of them. Those above stay even
    if the directory itself cannot be made. -/
def makeDirectorySteps : Nat → Machine → FilePath → Machine × Made
  | n, m, p =>
    if p.chars.isEmpty then (m, .ok none)
    else
      match m.makeDirectory p, n, p.parent? with
      | (m, .error .notFound), n + 1, some above =>
        match makeDirectorySteps n m above with
        | (m, .error e) => (m, .error e)
        | (m, .ok place) => m.makeDirectoryIn place p
      | result, _, _ => result

/-- Makes a directory and the missing ones above it. -/
def makeDirectories (m : Machine) (p : FilePath) : Machine × Except OsError Unit :=
  let (m, made) := makeDirectorySteps (p.components.length + 1) m p
  (m, made.map fun _ => ())

/-- Makes the directory that a path is in, if there is any. -/
def makeParent (m : Machine) (p : FilePath) : Machine × Except OsError Unit :=
  match p.parent? with
  | none => (m, .ok ())
  | some above => m.makeDirectories above

/-- Writes a file in place of what it held, across at most `n` links that lead nowhere yet. -/
def writeFileSteps : Nat → Machine → FilePath → Content → Except OsError Machine
  | n, m, p, content =>
    match m.resolve p with
    | .ok place =>
      if m.files.entryAt place = some .directory then .error .isDirectory
      else .ok (m.withFiles (m.files.put place (.file content)))
    | .error e =>
      if e = .notFound then
        match m.parentOf p with
        | .error e => .error e
        | .ok (above, name) =>
          match n, m.files.entryAt (above ++ [name]) with
          | n + 1, some (.link target) =>
            writeFileSteps n m ((FilePath.ofNames above).join ⟨target⟩) content
          | _, some _ => .error .tooManyLinks
          | _, none =>
            if p.endsInSlash then .error .isDirectory
            else .ok (m.withFiles (m.files.put (above ++ [name]) (.file content)))
      else .error e

/-- Writes a file in place of what it held. -/
def writeFile (m : Machine) (p : FilePath) (content : Content) : Except OsError Machine :=
  writeFileSteps FileTree.maxLinks m p content

/-- Makes a symbolic link. -/
def makeLink (m : Machine) (p : FilePath) (target : String) : Except OsError Machine :=
  (m.make p (.link target)).map (·.1)

/-- Removes what the path names, with everything below it. A link is removed itself. -/
def remove (m : Machine) (p : FilePath) : Except OsError Machine :=
  match m.parentOf p with
  | .error e => .error e
  | .ok (above, name) =>
    if (m.files.entryAt (above ++ [name])).isNone then .error .notFound
    else .ok (m.withFiles (m.files.erase (above ++ [name])))

end Machine

end Hosting
