import Hosting.FilePath
import Hosting.PatternSet

/-! # Libraries

    The search path that an application loads its code from: directories and archives, each
    place once, in the order they were added.
-/

namespace Hosting

open Text

/-- What a library is. -/
inductive LibraryKind where
  | directory
  | archive
deriving DecidableEq, Repr

/-- One place on the search path. -/
structure Library where
  path : FilePath
  kind : LibraryKind
deriving DecidableEq, Repr

namespace LibraryKind

/-- The name of a kind. -/
def name : LibraryKind → String
  | .directory => "Directory"
  | .archive => "Archive"

/-- The kinds by name. -/
def cases : List (String × Json.Case LibraryKind) :=
  [("Directory", .plain .directory), ("Archive", .plain .archive)]

/-- Reads a kind. -/
def reader : Reader LibraryKind := Json.choice cases

end LibraryKind

namespace Library

/-- The `file:` identifier of a library. It has a slash after the colon, and a directory has one
    at the end. -/
def location (l : Library) : String :=
  let path := l.path.text.toList.map fun c => if c = '\\' then '/' else c
  let rooted := if path.head? = some '/' then path else '/' :: path
  let ended :=
    if l.kind = .directory ∧ rooted.getLast? ≠ some '/' then rooted ++ ['/'] else rooted
  "file:" ++ .ofList ended

/-- A library as it stands in a JSON text. -/
def json (l : Library) : Json :=
  .object [("path", l.path.json), ("kind", .text l.kind.name)]

/-- The members of a library, in the order of their positions. -/
def fields : List (Json.Field Library) :=
  [Json.requiredField "path" FilePath.reader fun l v => { l with path := v },
   Json.requiredField "kind" LibraryKind.reader fun l v => { l with kind := v }]

/-- Reads a library. -/
def reader : Reader Library := Json.record fields ⟨⟨""⟩, .directory⟩

end Library

/-- The search path of an application, with the rules for names from the host. -/
structure LibrarySet where
  libraries : List Library
  /-- The host's copy of a name comes before the application's own. -/
  parentFirst : Bool
  visibility : Visibility
deriving DecidableEq, Repr

namespace LibrarySet

/-- No libraries and no rules. -/
def empty : LibrarySet := ⟨[], false, .empty⟩

/-- A library at this place is on the search path. -/
def holds (s : LibrarySet) (path : FilePath) : Bool :=
  s.libraries.any fun l => l.path.same path

/-- Adds a library at the end unless its place is taken. -/
def push (s : LibrarySet) (l : Library) : LibrarySet :=
  if s.holds l.path then s else { s with libraries := s.libraries ++ [l] }

/-- What `push` answers: whether the library was added. -/
def accepts (s : LibrarySet) (l : Library) : Bool :=
  !s.holds l.path

/-- Adds libraries one after the other. -/
def pushAll (s : LibrarySet) (ls : List Library) : LibrarySet :=
  ls.foldl push s

/-- The identifiers of the libraries, in order. -/
def locations (s : LibrarySet) : List String :=
  s.libraries.map Library.location

/-- The paths of the libraries are texts. No JSON text holds a search path that has others. -/
def isText (s : LibrarySet) : Bool :=
  s.libraries.all (·.path.isText)

/-- A search path as it stands in a JSON text. -/
def json (s : LibrarySet) : Json :=
  .object
    [("libraries", .array (s.libraries.map Library.json)),
     ("parent_loader_priority", .bool s.parentFirst),
     ("visibility", s.visibility.json)]

/-- The members of a search path, in the order of their positions. -/
def fields : List (Json.Field LibrarySet) :=
  [Json.requiredField "libraries" (Json.readList Library.reader) fun s v =>
     { s with libraries := v },
   Json.requiredField "parent_loader_priority" Json.readBool fun s v => { s with parentFirst := v },
   Json.requiredField "visibility" Visibility.reader fun s v => { s with visibility := v }]

/-- Reads a search path, as written. -/
def reader : Reader LibrarySet := Json.record fields empty

end LibrarySet

end Hosting
