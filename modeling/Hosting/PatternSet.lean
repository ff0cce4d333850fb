import Hosting.Json.Reader
import Hosting.Text.Blank

/-! # Name patterns and visibility

    Which names an application takes from the host. A pattern that ends in a dot stands for
    every name below it, any other for itself. A pattern after a minus sign excludes, and
    exclusions win.
-/

namespace Hosting

open Text

/-- Patterns that include and patterns that exclude, each once, in the order they came. -/
structure PatternSet where
  includes : List String
  excludes : List String
deriving DecidableEq, Repr

namespace PatternSet

/-- The set without patterns. -/
def empty : PatternSet := ⟨[], []⟩

/-- The list with `x` at its end, unless it is there. -/
def appendNew (xs : List String) (x : String) : List String :=
  if xs.contains x then xs else xs ++ [x]

/-- Adds a pattern, with its sign and the blanks around it. -/
def add (s : PatternSet) (pattern : String) : PatternSet :=
  match strip isBlank pattern.toList with
  | [] => s
  | '-' :: [] => s
  | '-' :: excluded => { s with excludes := appendNew s.excludes (.ofList excluded) }
  | included => { s with includes := appendNew s.includes (.ofList included) }

/-- Adds patterns one after the other. -/
def addAll (s : PatternSet) (patterns : List String) : PatternSet :=
  patterns.foldl add s

/-- The set of the given patterns. -/
def ofPatterns (patterns : List String) : PatternSet :=
  empty.addAll patterns

/-- The pattern stands for the name. -/
def covers (pattern name : String) : Bool :=
  if pattern.toList.getLast? = some '.' then pattern.toList.isPrefixOf name.toList
  else name == pattern

/-- The name is included and not excluded. -/
def admits (s : PatternSet) (name : String) : Bool :=
  !(s.excludes.any (covers · name)) && s.includes.any (covers · name)

/-- No patterns at all. -/
def isEmpty (s : PatternSet) : Bool :=
  s.includes.isEmpty && s.excludes.isEmpty

/-- The patterns with their signs, exclusions first. -/
def patterns (s : PatternSet) : List String :=
  s.excludes.map ("-" ++ ·) ++ s.includes

/-- A pattern set as it stands in a JSON text. -/
def json (s : PatternSet) : Json :=
  .object [("includes", Json.texts s.includes), ("excludes", Json.texts s.excludes)]

/-- The members of a pattern set, in the order of their positions. -/
def fields : List (Json.Field PatternSet) :=
  [Json.requiredField "includes" (Json.readList Json.readText) fun s v => { s with includes := v },
   Json.requiredField "excludes" (Json.readList Json.readText) fun s v => { s with excludes := v }]

/-- Reads a pattern set. -/
def reader : Reader PatternSet := Json.record fields empty

end PatternSet

/-- Which names an application takes from the host, and which it never sees. -/
structure Visibility where
  /-- Taken from the host, never from the libraries of the application. -/
  system : PatternSet
  /-- Hidden from the application. -/
  server : PatternSet
deriving DecidableEq, Repr

namespace Visibility

/-- No rules. -/
def empty : Visibility := ⟨.empty, .empty⟩

/-- The names taken from the host unless the settings say otherwise. -/
def defaultSystem : List String := ["apphost.api.", "std."]

/-- The names hidden unless the settings say otherwise. -/
def defaultServer : List String := ["-apphost.api.", "apphost."]

/-- The name is taken from the host. -/
def isSystem (v : Visibility) (name : String) : Bool :=
  v.system.admits name

/-- The name is hidden from the application. -/
def isHidden (v : Visibility) (name : String) : Bool :=
  v.server.admits name

/-- The rules as they stand in a JSON text. -/
def json (v : Visibility) : Json :=
  .object [("system", v.system.json), ("server", v.server.json)]

/-- The members of the rules, in the order of their positions. -/
def fields : List (Json.Field Visibility) :=
  [Json.requiredField "system" PatternSet.reader fun v s => { v with system := s },
   Json.requiredField "server" PatternSet.reader fun v s => { v with server := s }]

/-- Reads the rules. -/
def reader : Reader Visibility := Json.record fields empty

end Visibility

end Hosting
