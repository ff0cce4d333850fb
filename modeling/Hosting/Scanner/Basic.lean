import Hosting.FileTree.Edit
import Hosting.Scanner.Debouncer
import Hosting.Scanner.Ownership
import Hosting.Scanner.Watcher
import Hosting.Text.Quoted

/-! # Deployment scanners

    A scanner watches the content of applications and tells which of them have changed. Its
    table says which root it watches for which context; the watcher knows paths only.

    - `watch` and `unwatch` keep the table, one root for a context at most;
    - `notice` takes in an edit of the files;
    - `next?` gives out the contexts that have changed, oldest first.
-/

namespace Hosting

/-- Watches the content of applications. -/
structure Scanner where
  watcher : Watcher
  roots : Roots
  debouncer : Debouncer
  /-- Changed contexts that were not given out yet, oldest first. -/
  changed : List ContextPath

/-- Why a scanner refused. -/
inductive ScanFailure where
  | notWatched (root : FilePath)
  | notUnwatched (root : FilePath)
deriving DecidableEq, Repr

/-- The text of the failure. -/
def ScanFailure.message : ScanFailure → String
  | .notWatched root => "Failed to watch " ++ root.quoted
  | .notUnwatched root => "Failed to unwatch " ++ root.quoted

namespace Scanner

/-- A scanner that watches nothing. -/
def ofQuiet (quiet : Nat) : Scanner := ⟨.empty, [], .ofQuiet quiet, []⟩

/-- The root of a context. -/
def rootOf? (s : Scanner) (context : ContextPath) : Option FilePath :=
  (s.roots.find? (·.2 == context)).map (·.1)

/-- The contexts with a root, oldest root first. -/
def watched (s : Scanner) : List ContextPath :=
  s.roots.map (·.2)

/-- Puts a root for a context into the table, as the newest. -/
def enter (s : Scanner) (context : ContextPath) (root : FilePath) : Scanner :=
  { s with roots := s.roots.filter (·.2 ≠ context) ++ [(root, context)] }

/-- The scanner whose watcher no longer watches `root`, as far as it did. -/
def drop (s : Scanner) (m : Machine) (root : FilePath) : Scanner :=
  { s with watcher := (s.watcher.unwatch m root).1 }

/-- Watches a root for a context, in place of the one it had. -/
def watch (s : Scanner) (m : Machine) (context : ContextPath) (root : FilePath) :
    Scanner × Except ScanFailure Unit :=
  let previous := s.rootOf? context
  if previous.any (·.same root) then (s, .ok ())
  else
    match s.watcher.watch m root with
    | none => (s, .error (.notWatched root))
    | some watcher =>
      let s := { s with watcher }
      let s := match previous with
        | some old => s.drop m old
        | none => s
      (s.enter context root, .ok ())

/-- Stops watching roots, up to the first that the watcher refuses. -/
def dropAll (s : Scanner) (m : Machine) : List FilePath → Scanner × Except ScanFailure Unit
  | [] => (s, .ok ())
  | root :: rest =>
    if (s.watcher.unwatch m root).2 then (s.drop m root).dropAll m rest
    else (s.drop m root, .error (.notUnwatched root))

/-- Stops watching for a context. -/
def unwatch (s : Scanner) (m : Machine) (context : ContextPath) :
    Scanner × Except ScanFailure Unit :=
  let removed := (s.roots.filter (·.2 = context)).map (·.1)
  { s with roots := s.roots.filter (·.2 ≠ context) }.dropAll m removed

/-! ### Changes -/

/-- Takes in a change that is reported under a path. -/
def report (s : Scanner) (now : Int) (path : FilePath) : Scanner :=
  match s.roots.owner? path with
  | none => s
  | some context =>
    let (debouncer, passes) := s.debouncer.decide context now
    { s with debouncer, changed := if passes then s.changed ++ [context] else s.changed }

/-- Takes in a change on the machine. -/
def observe (s : Scanner) (m : Machine) (now : Int) (change : Change) : Scanner :=
  let s := (s.watcher.reports change).foldl (fun s path => s.report now path) s
  { s with watcher := s.watcher.follow m change }

/-- What has become of a place between two machines. -/
def changeAt (before after : Machine) (place : Location) : Change :=
  match before.files.entryAt place, after.files.entryAt place with
  | some old, none => .gone place (old = .directory)
  | none, some new => .made place (new = .directory)
  | _, _ => .written place

/-- Takes in an edit of the files, with the machine before and after it. -/
def notice (s : Scanner) (before after : Machine) (now : Int) (e : Edit) : Scanner :=
  (before.changesTo after e).foldl (fun s place =>
    s.observe after now (changeAt before after place)) s

/-- The oldest changed context. -/
def next? (s : Scanner) : Option (ContextPath × Scanner) :=
  match s.changed with
  | [] => none
  | context :: rest => some (context, { s with changed := rest })

end Scanner

end Hosting
