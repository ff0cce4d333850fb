import Hosting.Json.Reader
import Hosting.Text.Blank
import Hosting.Text.Letters

/-! # Protected targets

    Some directories of an application are its own business and are never served: those
    whose name is reserved, when they come first in the path. Names are compared without
    regard to the case of the letters A to Z.

    - `ofNames` stores each name in lower case with one slash before it;
    - `isProtected` looks at the first segment of a path only, up to `/`, `?`, `#` or `;`.
-/

namespace Hosting

open Text

/-- The reserved first segments, each with the slash before it. -/
structure ProtectedTargets where
  targets : List String
deriving DecidableEq, Repr

namespace ProtectedTargets

/-- The names reserved unless the settings say otherwise. -/
def defaultNames : List String := ["/web-inf", "/meta-inf"]

/-- The stored form of a reserved name. -/
def stored (name : List Char) : List Char :=
  '/' :: dropEnd (· == '/') (lowercase ((strip isBlank name).dropWhile (· == '/')))

/-- The targets for a list of names. A name that is empty reserves nothing. -/
def ofNames (names : List String) : ProtectedTargets :=
  ⟨((names.map fun name => stored name.toList).filter (1 < ·.length)).map String.ofList⟩

/-- The targets that hold unless the settings say otherwise. -/
def default : ProtectedTargets := ofNames defaultNames

/-- Slashes at the start, as one. -/
def oneSlash : List Char → List Char
  | '/' :: '/' :: cs => oneSlash ('/' :: cs)
  | cs => cs

/-- What follows `reserved` in `cs`, if `cs` begins with it up to the case of letters. -/
def afterReserved : List Char → List Char → Option (List Char)
  | [], cs => some cs
  | _ :: _, [] => none
  | r :: reserved, c :: cs =>
    if c.toLower = r.toLower then afterReserved reserved cs else none

/-- The first segment ends here. -/
def endsSegment : List Char → Bool
  | [] => true
  | c :: _ => c == '/' || c == '?' || c == '#' || c == ';'

/-- The path begins with the reserved name as a whole segment. -/
def reserves (reserved cs : List Char) : Bool :=
  match afterReserved reserved cs with
  | some rest => endsSegment rest
  | none => false

/-- The first segment of the path is reserved. -/
def isProtected (t : ProtectedTargets) (path : String) : Bool :=
  !path.isEmpty && t.targets.any fun reserved => reserves reserved.toList (oneSlash path.toList)

/-- The targets as they stand in a JSON text. -/
def json (t : ProtectedTargets) : Json :=
  .object [("targets", Json.texts t.targets)]

/-- Reads targets, as stored. -/
def reader : Reader ProtectedTargets :=
  Json.record
    [Json.requiredField "targets" (Json.readList Json.readText) fun t v => { t with targets := v }]
    ⟨[]⟩

end ProtectedTargets

end Hosting
