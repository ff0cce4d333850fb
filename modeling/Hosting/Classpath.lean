import Hosting.Library
import Hosting.Machine
import Hosting.Text.Blank

/-! # Classpaths

    A classpath is a text of tokens between delimiters. A token names a directory or an
    archive, or it ends in a star and names every archive in a directory. Tokens that name
    nothing are passed over.

    - `split` finds the tokens;
    - `resolve` gives the libraries of a list of tokens, in order and each place once;
    - `expand` lists the archives in a directory by name.
-/

namespace Hosting

open Text

/-- What counts as an archive, and what stands between tokens. -/
structure Classpath where
  /-- In lower case, without dots before them. -/
  extensions : List String
  delimiters : List Char
deriving DecidableEq, Repr

namespace Classpath

/-- The archive extensions unless the settings say otherwise. -/
def defaultExtensions : List String := ["jar", "zip"]

/-- The delimiters unless the settings say otherwise. -/
def defaultDelimiters : String := ",;"

/-- An extension as it is compared. -/
def storedExtension (e : String) : String :=
  .ofList (lowercase (e.toList.dropWhile (· == '.')))

/-- Extensions and delimiters as configured. Without any delimiter it is a comma. -/
def ofSettings (extensions : List String) (delimiters : String) : Classpath :=
  { extensions := (extensions.map storedExtension).filter (· ≠ "")
    delimiters := if delimiters = "" then [','] else delimiters.toList }

/-- The defaults. -/
def default : Classpath := ofSettings defaultExtensions defaultDelimiters

/-- The tokens of a classpath text, without blanks around them and without empty ones. -/
def split (c : Classpath) (raw : String) : List String :=
  (((pieces c.delimiters.contains raw.toList).map (strip isBlank)).filter (· ≠ [])).map
    String.ofList

/-- The path has the extension of an archive. -/
def isArchive (c : Classpath) (path : FilePath) : Bool :=
  match path.extensionText? with
  | none => false
  | some e => c.extensions.any fun a => sameLetters e a.toList

/-- A slash of either direction. -/
def isSeparator (c : Char) : Bool :=
  c == '/' || c == '\\'

/-- A token without the slashes at its end. Of nothing but slashes the first one stays. -/
def withoutEnd (token : List Char) : List Char :=
  match dropEnd isSeparator token with
  | [] => token.take 1
  | kept => kept

/-- The archives directly inside a directory, by name. Links to regular files count under their
    own name. -/
def expand (c : Classpath) (m : Machine) (dir : FilePath) : List Library :=
  match m.canonical dir with
  | .error _ => []
  | .ok dir =>
    let names := ((m.names? dir).getD []).mergeSort
    let paths := names.map fun name : String => dir.join ⟨name⟩
    (paths.filter fun p => m.isFile p && c.isArchive p).map fun p => ⟨p, .archive⟩

/-- The part of a token before the star at its end. -/
def beforeStar? (token : List Char) : Option (List Char) :=
  if token.getLast? = some '*' then some token.dropLast else none

/-- The libraries that one token names. -/
def resolveToken (c : Classpath) (m : Machine) (base : FilePath) (token : List Char) :
    List Library :=
  match beforeStar? token with
  | some before =>
    let dir := withoutEnd before
    let path := base.join (.ofChars (if dir = [] then ['.'] else dir))
    if m.isDirectory path then c.expand m path else []
  | none =>
    let path := base.join (.ofChars (withoutEnd token))
    match m.kindOf path, m.canonical path with
    | .ok .directory, .ok place => [⟨place, .directory⟩]
    | .ok .file, .ok place => if c.isArchive place then [⟨place, .archive⟩] else []
    | _, _ => []

/-- Adds a library unless its place is taken. -/
def addNew (found : List Library) (l : Library) : List Library :=
  if found.any fun k => k.path.same l.path then found else found ++ [l]

/-- The libraries that the tokens name, in order and each place once. A base that does not start
    at the root starts at the working directory. -/
def resolve (c : Classpath) (m : Machine) (tokens : List String) (base : FilePath) :
    List Library :=
  let base := m.workingPath.join base
  let trimmedTokens := (tokens.map fun t => strip isBlank t.toList).filter (· ≠ [])
  (trimmedTokens.flatMap (c.resolveToken m base)).foldl addNew []

/-- The libraries of a classpath text. -/
def resolveText (c : Classpath) (m : Machine) (raw : String) (base : FilePath) : List Library :=
  c.resolve m (c.split raw) base

end Classpath

end Hosting
