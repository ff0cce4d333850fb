import Hosting.Database.Fault
import Hosting.FilePath
import Hosting.Text.Percent

/-! # Addresses of databases

    A path names a database file. A path that starts with `file:` is taken apart further:
    it may name an authority, which has to be this computer, and after a question mark it
    has options, which say how the file is opened. Everything in it is percent-encoded, and
    a number sign ends it. The empty path and `:memory:` name a database that is in no file.

    - `Mode.afterAll` is the access mode that options ask for: each may only allow less
      than the one before;
    - `Address.ofPath` reads an address.
-/

namespace Hosting

open Text

/-! ### Access modes -/

/-- What may be done with a database file. -/
inductive Mode where
  | read
  | write
  /-- Writing, and making the file where it is missing. -/
  | create
  /-- Anything, because no file is used. -/
  | memory
deriving DecidableEq, Repr

namespace Mode

/-- The mode of a name. -/
def named? : String → Option Mode
  | "ro" => some .read
  | "rw" => some .write
  | "rwc" => some .create
  | "memory" => some .memory
  | _ => none

/-- A mode does not allow more than the one before. -/
def permits : Mode → Mode → Bool
  | .read, .write => false
  | .read, .create => false
  | .write, .create => false
  | _, _ => true

/-- The mode after an option. -/
def after (mode : Mode) (name value : String) : Except DatabaseFault Mode :=
  if name = "mode" then
    match named? value with
    | none => .error (.noSuchMode "access" value)
    | some next => if mode.permits next then .ok next else .error (.modeRefused value)
  else if name = "cache" ∧ value ≠ "shared" ∧ value ≠ "private" then
    .error (.noSuchMode "cache" value)
  else .ok mode

/-- The mode after options. -/
def afterAll : Mode → List (String × String) → Except DatabaseFault Mode
  | mode, [] => .ok mode
  | mode, (name, value) :: rest =>
    match mode.after name value with
    | .error e => .error e
    | .ok next => next.afterAll rest

end Mode

/-! ### Addresses -/

/-- How changes come into a database file. -/
inductive Keeping where
  /-- By way of a log beside it. -/
  | logged
  /-- Directly. -/
  | direct
  /-- Never: the file is taken as it is. -/
  | fixed
deriving DecidableEq, Repr

/-- Which database to open, and how. -/
structure Address where
  /-- The file, unless the database is in memory. -/
  file : Option FilePath
  mode : Mode
  keeping : Keeping
deriving DecidableEq, Repr

namespace Address

/-- The database of a plain path. -/
def plain (path : String) : Address :=
  ⟨if path = "" ∨ path = ":memory:" then none else some ⟨path⟩, .create, .logged⟩

/-- The name and the value of an option. -/
def optionOf (cs : List Char) : String × String :=
  (percentDecoded (cs.takeWhile (· ≠ '=')), percentDecoded ((cs.dropWhile (· ≠ '=')).drop 1))

/-- The options after the question mark. One without a name does not count. -/
def optionsOf (cs : List Char) : List (String × String) :=
  ((pieces (· == '&') cs).map optionOf).filter (·.1 ≠ "")

/-- A value that switches an option on. -/
def switchesOn (value : String) : Bool :=
  match value.toList.takeWhile Char.isDigit with
  | [] => ["on", "yes", "true"].any fun word => sameLetters word.toList value.toList
  | digits => (String.ofList digits).toNat?.any (· % 256 ≠ 0)

/-- An option is switched on. -/
def hasSwitch (options : List (String × String)) (name : String) : Bool :=
  (options.lookup name).any switchesOn

/-- The file system that options ask for. -/
def systemOf (options : List (String × String)) : String :=
  (options.reverse.lookup "vfs").getD "unix"

/-- The file systems that there are. -/
def systems : List String :=
  ["unix", "unix-none", "unix-dotfile", "unix-excl", "memdb"]

/-- How changes come into a file that is opened with options. -/
def keepingOf (options : List (String × String)) : Keeping :=
  if hasSwitch options "immutable" then .fixed
  else if hasSwitch options "nolock" ∨
      systemOf options ∈ ["unix-none", "unix-dotfile"] then .direct
  else .logged

/-- The address of a path with options. -/
def ofOptions (path : String) (options : List (String × String)) : Except DatabaseFault Address :=
  match Mode.create.afterAll options with
  | .error e => .error e
  | .ok mode =>
    let system := systemOf options
    if system ∉ systems then .error (.noSuchSystem system)
    else
      let inMemory := mode = .memory ∨ system = "memdb"
      .ok ⟨if inMemory then none else (plain path).file, mode, keepingOf options⟩

/-- The address that begins after the authority. -/
def ofLocal (cs : List Char) : Except DatabaseFault Address :=
  let body := cs.takeWhile (· ≠ '#')
  ofOptions (percentDecoded (body.takeWhile (· ≠ '?')))
    (optionsOf ((body.dropWhile (· ≠ '?')).drop 1))

/-- The address that begins with an authority. -/
def ofAuthority (cs : List Char) : Except DatabaseFault Address :=
  let name := String.ofList (cs.takeWhile (· ≠ '/'))
  if name = "" ∨ name = "localhost" then ofLocal (cs.dropWhile (· ≠ '/'))
  else .error (.foreignAuthority name)

/-- The address that a path stands for. -/
def ofPath (path : FilePath) : Except DatabaseFault Address :=
  if path.chars.contains (.char (.ofNat 0)) || !path.isText then .error .cannotOpen
  else
    match path.text.toList with
    | 'f' :: 'i' :: 'l' :: 'e' :: ':' :: '/' :: '/' :: cs => ofAuthority cs
    | 'f' :: 'i' :: 'l' :: 'e' :: ':' :: cs => ofLocal cs
    | _ => .ok (plain path.text)

end Address

end Hosting
