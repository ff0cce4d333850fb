import Hosting.HostError
import Hosting.Machine
import Hosting.Text.Blank

/-! # Resource bases

    What stands behind the virtual root of an application: a directory, or an archive whose
    content was extracted to a directory beside it.

    - `establish` finds the base that a raw reference names;
    - `contentRoot` is the directory that virtual paths lead into.
-/

namespace Hosting

open Text

/-- What backs the virtual root of an application. -/
inductive BaseResource where
  | directory (path : FilePath)
  /-- An archive, with the directory that holds its content. -/
  | archive (archive extracted : FilePath)
deriving DecidableEq, Repr

namespace BaseResource

/-- The directory that virtual paths lead into. -/
def contentRoot : BaseResource → FilePath
  | .directory path => path
  | .archive _ extracted => extracted

/-- The extensions of archives that can be a base. -/
def archiveExtensions : List String := ["war", "jar", "zip"]

/-- What follows `start` in `cs`, if `cs` begins with it. -/
def dropStart? : List Char → List Char → Option (List Char)
  | [], cs => some cs
  | _ :: _, [] => none
  | s :: start, c :: cs => if c = s then dropStart? start cs else none

/-- A reference without the scheme `file:` and the two slashes that may follow it. -/
def withoutScheme (cs : List Char) : List Char :=
  match dropStart? "file://".toList cs with
  | some rest => rest
  | none => (dropStart? "file:".toList cs).getD cs

/-- The path has one of the archive extensions. -/
def isArchivePath (path : FilePath) : Bool :=
  match path.extensionText? with
  | none => false
  | some e => archiveExtensions.any fun a => sameLetters e a.toList

/-- The base that the reference `raw` of a context names: an absolute path, a path below the
    deploy directory, or either after `file:`. -/
def establish (m : Machine) (context raw : String) (deployDirectory : FilePath) :
    Except HostError BaseResource :=
  let reference := strip isBlank raw.toList
  if reference = [] then .error (.baseResource context "no resource base configured")
  else
    let path := deployDirectory.join (.ofChars (withoutScheme reference))
    match m.kindOf path with
    | .error e => .error (.baseResource context (path.text ++ ": " ++ e.message))
    | .ok kind =>
      match m.canonical path with
      | .error e => .error (.io path e)
      | .ok path =>
        if kind = .directory then .ok (.directory path)
        else if isArchivePath path then
          .ok (.archive path (path.withFileName (path.stem?.getD [])))
        else
          .error (.baseResource context (path.text ++ " is neither a directory nor an archive"))

/-- The paths of the base are texts. No JSON text holds a base that has other paths. -/
def isText : BaseResource → Bool
  | .directory path => path.isText
  | .archive file content => file.isText && content.isText

/-- A base as it stands in a JSON text. -/
def json : BaseResource → Json
  | .directory path => .object [("Directory", path.json)]
  | .archive file content =>
    .object [("Archive", .object [("archive", file.json), ("extracted", content.json)])]

/-- The members of an archive and its content, in the order of their positions. -/
def archiveFields : List (Json.Field (FilePath × FilePath)) :=
  [Json.requiredField "archive" FilePath.reader fun p v => (v, p.2),
   Json.requiredField "extracted" FilePath.reader fun p v => (p.1, v)]

/-- The two kinds of base. -/
def cases : List (String × Json.Case BaseResource) :=
  [("Directory", .carrying (Json.readMap BaseResource.directory FilePath.reader)),
   ("Archive", .carrying (Json.readMap (fun p => BaseResource.archive p.1 p.2)
     (Json.record archiveFields (⟨""⟩, ⟨""⟩))))]

/-- Reads a base. -/
def reader : Reader BaseResource := Json.choice cases

end BaseResource

end Hosting
