import Hosting.HostError
import Hosting.Text.Blank

/-! # Context paths

    The path prefix that an application is mounted at, such as `/`, `/A` or `/shop/admin`.
    Context paths are keys of every table of the host, so each is kept in one canonical
    spelling, and the type holds no other.

    - `isCanonicalContext` says which spellings these are;
    - `parse` accepts a spelling that is canonical up to blanks around it, a missing slash
      at its start and slashes at its end;
    - `owns` says which request paths fall below a context.
-/

namespace Hosting

open Text

/-- Two slashes in a row. -/
def hasDoubleSlash : List Char → Bool
  | '/' :: '/' :: _ => true
  | _ :: cs => hasDoubleSlash cs
  | [] => false

/-- The spelling of a context path: the root, or a slash and segments that are not empty, without
    a star or a blank anywhere. -/
def isCanonicalContext (cs : List Char) : Bool :=
  cs == ['/'] ||
    (cs.head? == some '/' && cs.getLast? != some '/' && !hasDoubleSlash cs &&
      cs.all fun c => c != '*' && !isBlank c)

/-- A path prefix that an application is mounted at. -/
structure ContextPath where
  text : String
  canonical : isCanonicalContext text.toList = true
deriving DecidableEq, Repr

namespace ContextPath

/-- The context that owns every path. -/
def root : ContextPath := ⟨"/", by decide⟩

/-- One slash at the start and none at the end. -/
def respelled (cs : List Char) : List Char :=
  match dropEnd (· == '/') (strip isBlank cs) with
  | [] => ['/']
  | '/' :: rest => '/' :: rest
  | rest => '/' :: rest

/-- Reads a context path, in any spelling that becomes canonical. -/
def parse (raw : String) : Except HostError ContextPath :=
  let cs := respelled raw.toList
  if h : isCanonicalContext cs = true then
    .ok ⟨.ofList cs, by rw [String.toList_ofList]; exact h⟩
  else .error (.invalidContextPath raw)

/-- The root context. -/
def isRoot (p : ContextPath) : Bool :=
  p.text == "/"

/-- `rest` after a path lies below the path: it is empty or starts a new segment. -/
def startsSegment : List Char → Bool
  | [] => true
  | c :: _ => c == '/'

/-- What follows `start` in `cs`, if `cs` begins with it. -/
def remainder? : List Char → List Char → Option (List Char)
  | [], cs => some cs
  | _ :: _, [] => none
  | s :: start, c :: cs => if c = s then remainder? start cs else none

/-- The request path falls below the context. The root owns every path. -/
def owns (p : ContextPath) (uri : String) : Bool :=
  p.isRoot ||
    match remainder? p.text.toList uri.toList with
    | some rest => startsSegment rest
    | none => false

instance : LT ContextPath := ⟨fun p q => p.text < q.text⟩

instance (p q : ContextPath) : Decidable (p < q) :=
  inferInstanceAs (Decidable (p.text < q.text))

/-- A context path as it stands in a JSON text. -/
def json (p : ContextPath) : Json :=
  .text p.text

/-- Reads a context path; a spelling that does not parse is no value. -/
def reader : Reader ContextPath :=
  Json.readParsed fun s => (parse s).toOption

/-! ### The order of context paths -/

theorem ext_text {p q : ContextPath} (h : p.text = q.text) : p = q := by
  cases p; cases q; simp_all

theorem lt_irrefl (p : ContextPath) : ¬ p < p :=
  String.lt_irrefl p.text

theorem lt_trans {p q r : ContextPath} (h : p < q) (h' : q < r) : p < r :=
  String.lt_trans h h'

theorem eq_of_not_lt {p q : ContextPath} (h : ¬ p < q) (h' : ¬ q < p) : p = q :=
  ext_text (String.le_antisymm (String.not_lt.1 h') (String.not_lt.1 h))

end ContextPath

end Hosting
