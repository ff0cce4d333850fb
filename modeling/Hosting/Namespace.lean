import Hosting.BaseResource
import Hosting.ProtectedTargets
import Hosting.VirtualPath

/-! # Resource namespaces

    The virtual paths of one application, mapped onto the files below its base. An alias is
    a second route between two virtual prefixes, and it leads both ways. A path is looked up
    directly first and by its alias second, once.

    - `resolve` finds what a virtual path leads to, for a caller inside or outside the
      application: one outside never gets a protected path, by either route;
    - `aliasFor` chooses the route: the whole path first, else the longest registered prefix
      that ends in a slash;
    - `realPath` and `list` are the other two views.
-/

namespace Hosting

open Text

/-- Who asks for a resource. -/
inductive Caller where
  /-- The application itself. -/
  | inside
  /-- Everyone else. -/
  | outside
deriving DecidableEq, Repr

/-- A virtual path that leads to something. -/
structure Resource where
  /-- The normal spelling of the path that was asked for. -/
  virtualPath : String
  /-- Where the resource is found. -/
  path : FilePath
  kind : Kind
deriving DecidableEq, Repr

/-- The virtual paths of one application. -/
structure Namespace where
  base : Option BaseResource
  /-- Pairs of normal spellings, oldest first. -/
  aliases : List (String × String)
  reserved : ProtectedTargets
deriving DecidableEq, Repr

namespace Namespace

/-- A namespace without a base and without aliases. -/
def ofTargets (reserved : ProtectedTargets) : Namespace := ⟨none, [], reserved⟩

/-- The namespace with a base. -/
def withBase (ns : Namespace) (base : BaseResource) : Namespace :=
  { ns with base := some base }

/-- Adds a route between two prefixes as the newest, in place of one from the same prefix. A pair
    with a side that climbs above the root is ignored. -/
def registerAlias (ns : Namespace) (source target : String) : Namespace :=
  match VirtualPath.normalize source, VirtualPath.normalize target with
  | some source, some target =>
    { ns with aliases := ns.aliases.filter (·.1 ≠ source) ++ [(source, target)] }
  | _, _ => ns

/-- Adds routes one after the other. -/
def registerAliases (ns : Namespace) (pairs : List (String × String)) : Namespace :=
  pairs.foldl (fun ns pair => ns.registerAlias pair.1 pair.2) ns

/-- The path is protected from callers outside. -/
def isProtected (ns : Namespace) (path : String) : Bool :=
  ns.reserved.isProtected path

/-! ### Alias routes -/

/-- The other side of a registered prefix: where it leads to, else the newest that leads to it. -/
def counterpart (aliases : List (String × String)) (key : String) : Option String :=
  match aliases.reverse.find? (·.1 == key) with
  | some pair => some pair.2
  | none => (aliases.reverse.find? (·.2 == key)).map (·.1)

/-- A target with the rest of the path behind it, and a slash between them. -/
def routed (target : String) (rest : List Char) : String :=
  if target.toList.getLast? = some '/' then target ++ .ofList rest
  else target ++ "/" ++ .ofList rest

/-- The route of the longest registered prefix that ends in a slash, of which the characters
    `before` were read already, last one first. -/
def prefixRoute (aliases : List (String × String)) (before : List Char) :
    List Char → Option String
  | [] => none
  | c :: rest =>
    match prefixRoute aliases (c :: before) rest with
    | some route => some route
    | none =>
      if c = '/' then
        (counterpart aliases (.ofList (c :: before).reverse)).map (routed · rest)
      else none

/-- The alias route of a path. -/
def aliasFor (aliases : List (String × String)) (path : String) : Option String :=
  match counterpart aliases path with
  | some target => some target
  | none => prefixRoute aliases [] path.toList

/-! ### Looking up -/

/-- The path below `root` that a normal virtual path stands for. -/
def placeBelow (root : FilePath) (normal : String) : FilePath :=
  ((segments normal.toList).filter (· ≠ [])).foldl (fun p s => p.join (.ofChars s)) root

/-- What stands below the base at a normal virtual path. -/
def locate (m : Machine) (ns : Namespace) (requested normal : String) : Option Resource :=
  match ns.base with
  | none => none
  | some base =>
    let path := placeBelow base.contentRoot normal
    match m.kindOf path with
    | .error _ => none
    | .ok kind => some ⟨requested, path, kind⟩

/-- The path is hidden from the caller. -/
def hides (ns : Namespace) (caller : Caller) (normal : String) : Bool :=
  caller == .outside && ns.isProtected normal

/-- What a virtual path leads to: directly, or by its alias route where there is nothing
    directly. -/
def resolve (m : Machine) (ns : Namespace) (path : String) (caller : Caller) : Option Resource :=
  match VirtualPath.normalize path with
  | none => none
  | some normal =>
    if ns.hides caller normal then none
    else
      match ns.locate m normal normal with
      | some found => some found
      | none =>
        match (aliasFor ns.aliases normal).bind VirtualPath.normalize with
        | none => none
        | some routed => if ns.hides caller routed then none else ns.locate m normal routed

/-- The virtual path leads to something. -/
def reaches (m : Machine) (ns : Namespace) (path : String) (caller : Caller) : Bool :=
  (ns.resolve m path caller).isSome

/-- The file path that a virtual path stands for, whether or not anything is there. -/
def realPath (ns : Namespace) (path : String) : Option FilePath :=
  match ns.base, VirtualPath.normalize path with
  | some base, some normal => some (placeBelow base.contentRoot normal)
  | _, _ => none

/-- The names in a directory in order, those of directories with a slash behind them. -/
def list (m : Machine) (ns : Namespace) (path : String) (caller : Caller) :
    Option (List String) :=
  match ns.resolve m path caller with
  | none => none
  | some found =>
    if found.kind = .directory then
      (m.names? found.path).map fun names =>
        (names.map fun name =>
          if m.holdsDirectory found.path name then name ++ "/" else name).mergeSort
    else none

/-- What the file holds that a virtual path leads to. -/
def read (m : Machine) (ns : Namespace) (path : String) (caller : Caller) :
    Option (Except OsError Content) :=
  (ns.resolve m path caller).map fun found => m.contentOf found.path

end Namespace

end Hosting
