import Hosting.Text.Pieces

/-! # Virtual paths

    Paths inside one application, as requests spell them. A normal spelling starts with a
    slash, has no empty segment, no `.` and no `..`, and keeps the trailing slash it was
    given. A path that climbs above the root has no normal spelling.

    - `plainSegments` reads the segments from left to right, a `..` taking one back;
    - `normalize` is the normal spelling.
-/

namespace Hosting.VirtualPath

open Text

/-- Goes over the segments with the ones kept so far in `kept`, last first. -/
def plainFrom (kept : List (List Char)) : List (List Char) → Option (List (List Char))
  | [] => some kept.reverse
  | segment :: rest =>
    if segment = [] ∨ segment = ['.'] then plainFrom kept rest
    else if segment = ['.', '.'] then
      match kept with
      | [] => none
      | _ :: above => plainFrom above rest
    else plainFrom (segment :: kept) rest

/-- The segments that a path comes to, unless it climbs above the root. -/
def plainSegments (cs : List Char) : Option (List (List Char)) :=
  plainFrom [] (segments cs)

/-- The path with the given segments, with a slash at its end if asked for or if there are no
    segments. -/
def spell (plain : List (List Char)) (trailing : Bool) : List Char :=
  let body := plain.flatMap ('/' :: ·)
  if body = [] ∨ trailing then body ++ ['/'] else body

/-- The normal spelling, on characters. -/
def normalizeChars (cs : List Char) : Option (List Char) :=
  (plainSegments cs).map fun plain => spell plain (cs.getLast? == some '/')

/-- The normal spelling of a virtual path, nothing if it climbs above the root. -/
def normalize (path : String) : Option String :=
  (normalizeChars path.toList).map String.ofList

end Hosting.VirtualPath
