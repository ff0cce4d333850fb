import Hosting.Json.Reader
import Hosting.PathChar
import Hosting.Text.Letters
import Hosting.Text.Pieces

/-! # File paths

    A path is kept as it was given, because messages show that. It is a list of bytes, so it
    may hold some that are no text; messages show each run of those as one character. It
    means a sequence of components: repeated slashes, inner `.` and trailing slashes do not
    count, a leading `.` does. Two paths with the same components are the same.

    - `components` is the meaning of a path;
    - `text` shows it, and says all about it where `isText`;
    - `join`, `withFileName` and `parent?` build new paths;
    - `extension?` and `stem?` take the last component apart at its last dot.
-/

namespace Hosting

open Text

/-- A path as it was written. -/
structure FilePath where
  chars : List PathChar
deriving DecidableEq, Repr, Inhabited

namespace FilePath

/-- The path that a text spells. -/
def ofChars (text : List Char) : FilePath :=
  ⟨text.map .char⟩

/-- What messages show of a path. -/
def text (p : FilePath) : String :=
  .ofList (p.chars.map PathChar.shown)

/-- The path is the text that it is shown as. -/
def isText (p : FilePath) : Bool :=
  p.chars.all PathChar.isChar

/-- The number of bytes of a path that is written so. -/
def sizeOf : List PathChar → Nat
  | [] => 0
  | c :: cs => c.size + sizeOf cs

/-- The number of bytes of a path. -/
def size (p : FilePath) : Nat :=
  sizeOf p.chars

/-- A step of a path. -/
inductive Component where
  /-- The slash at the start. -/
  | root
  /-- A `.` at the start of a path without root. -/
  | here
  /-- A `..`. -/
  | up
  | name (chars : List PathChar)
deriving DecidableEq, Repr

/-- The component that a piece between slashes stands for, if it counts. -/
def Component.ofPiece? (piece : List PathChar) : Option Component :=
  if piece = [] ∨ piece = [.char '.'] then none
  else if piece = [.char '.', .char '.'] then some .up
  else some (.name piece)

/-- The component of a name that is a text. -/
def Component.named (text : List Char) : Component :=
  .name (text.map .char)

/-- The path starts at the root. -/
def isAbsolute (p : FilePath) : Bool :=
  p.chars.head? == some (.char '/')

/-- The path ends in a slash. -/
def endsInSlash (p : FilePath) : Bool :=
  p.chars.getLast? == some (.char '/')

/-- The pieces of a path between slashes. -/
def piecesOf (cs : List PathChar) : List (List PathChar) :=
  pieces (· == .char '/') cs

/-- The components of a path that is written so. -/
def componentsOf (cs : List PathChar) : List Component :=
  let start : List Component :=
    if cs.head? = some (.char '/') then [.root]
    else if (piecesOf cs).head? = some [.char '.'] then [.here]
    else []
  start ++ (piecesOf cs).filterMap Component.ofPiece?

/-- The components of a path, in order. -/
def components (p : FilePath) : List Component :=
  componentsOf p.chars

/-- The same path, however it is spelled. -/
def same (p q : FilePath) : Bool :=
  p.components == q.components

/-- The first components of `p` are those of `base`. -/
def startsWith (p base : FilePath) : Bool :=
  base.components.isPrefixOf p.components

/-- `rel` below `base`, or `rel` itself if it starts at the root. -/
def join (base rel : FilePath) : FilePath :=
  if rel.isAbsolute then rel
  else if base.chars.isEmpty || base.endsInSlash then ⟨base.chars ++ rel.chars⟩
  else ⟨base.chars ++ .char '/' :: rel.chars⟩

/-- The name that the last component is. -/
def fileName? (p : FilePath) : Option (List PathChar) :=
  match p.components.getLast? with
  | some (.name cs) => some cs
  | _ => none

/-- The parts of a name before and after its last dot. -/
def splitLastDot (name : List PathChar) : Option (List PathChar × List PathChar) :=
  match name with
  | [] => none
  | c :: cs =>
    match splitLastDot cs with
    | some (before, after) => some (c :: before, after)
    | none => if c = .char '.' then some ([], cs) else none

/-- What follows the last dot of the name. A dot at the start of the name does not count. -/
def extensionOf (name : List PathChar) : Option (List PathChar) :=
  match splitLastDot name with
  | some (_ :: _, after) => some after
  | _ => none

/-- What comes before the extension of the name, all of it if there is none. -/
def stemOf (name : List PathChar) : List PathChar :=
  match splitLastDot name with
  | some (before@(_ :: _), _) => before
  | _ => name

/-- The extension of the file name. -/
def extension? (p : FilePath) : Option (List PathChar) :=
  p.fileName?.bind extensionOf

/-- The extension of the file name, if it is a text. -/
def extensionText? (p : FilePath) : Option (List Char) :=
  p.extension?.bind PathChar.text?

/-- The file name without its extension. -/
def stem? (p : FilePath) : Option (List PathChar) :=
  p.fileName?.map stemOf

/-- A piece between slashes that does not count as a component. -/
def isIdle (piece : List PathChar) : Bool :=
  piece == [] || piece == [.char '.']

/-- Drops the pieces at the end that do not count. -/
def dropIdle : List (List PathChar) → List (List PathChar)
  | [] => []
  | piece :: rest =>
    match dropIdle rest with
    | [] => if isIdle piece then [] else [piece]
    | kept => piece :: kept

/-- The path without its last component: nothing for the root and the empty path. -/
def parent? (p : FilePath) : Option FilePath :=
  let (start, body) : List PathChar × List (List PathChar) :=
    match piecesOf p.chars with
    | [] :: rest => (if p.chars = [] then [] else [.char '/'], rest)
    | [.char '.'] :: rest => ([.char '.'], rest)
    | all => ([], all)
  match dropIdle body with
  | [] => if start = [.char '.'] then some ⟨[]⟩ else none
  | kept =>
    let above := joined (.char '/') (dropIdle kept.dropLast)
    let link := if start = [.char '.'] ∧ above ≠ [] then [.char '/'] else []
    some ⟨start ++ link ++ above⟩

/-- The path with another name in place of its last one, which is only appended where there is
    no last name. -/
def withFileName (p : FilePath) (name : List PathChar) : FilePath :=
  let above := if p.fileName?.isSome then p.parent?.getD p else p
  above.join ⟨name⟩

/-- The path below the root that the names lead along. -/
def ofNames (names : List String) : FilePath :=
  .ofChars ('/' :: joined '/' (names.map String.toList))

/-- A path as it stands in a JSON text, which only holds it if it is a text itself. -/
def json (p : FilePath) : Json :=
  .text p.text

/-- Reads a path. -/
def reader : Reader FilePath :=
  Json.readMap (fun text : String => ⟨text⟩) Json.readText

/-! ### Paths that are texts -/

theorem Component.named_inj {cs ds : List Char} : named cs = named ds ↔ cs = ds := by
  unfold named
  rw [name.injEq, PathChar.map_char_inj]

theorem toList_text (p : FilePath) : p.text.toList = p.chars.map PathChar.shown :=
  String.toList_ofList

@[simp] theorem text_ofChars (cs : List Char) : (ofChars cs).text = .ofList cs := by
  unfold text ofChars
  rw [PathChar.map_shown_char]

@[simp] theorem isText_ofChars (cs : List Char) : (ofChars cs).isText = true :=
  PathChar.all_isChar_map cs

theorem ofChars_text {p : FilePath} (h : p.isText = true) : ofChars p.text.toList = p := by
  unfold ofChars
  rw [toList_text, PathChar.map_char_shown h]

theorem text_eq_empty_iff {p : FilePath} : p.text = "" ↔ p.chars = [] := by
  rw [← String.toList_eq_nil_iff, toList_text, List.map_eq_nil_iff]

end FilePath

end Hosting
