import Hosting.Machine

/-! # Watching directories

    A watcher is told of the changes in the directories registered with it. To register a
    directory registers every directory below it, across links, and directories made later
    join in. The operating system keeps a watch for each place, not for each path: a place
    that is registered under two paths is reported under the later of them, and its watch
    ends with the place, whatever is still registered.

    - `watch` and `unwatch` register a path and remove it;
    - `reports` are the paths that a change is reported under;
    - `follow` keeps up with what was made and removed.
-/

namespace Hosting

/-- A watch that the operating system keeps. -/
structure Watch where
  number : Nat
  place : Location
  /-- That the place itself is removed is told, not only what happens in it. -/
  tellsRemoval : Bool
deriving DecidableEq, Repr

/-- A registered path. -/
structure Registration where
  path : FilePath
  /-- The number of the watch. -/
  number : Nat
  /-- The removal was asked for. -/
  tellsRemoval : Bool
  /-- Directories below are registered with it. -/
  recursive : Bool
deriving DecidableEq, Repr

/-- The registered paths, and what the operating system has of them. -/
structure Watcher where
  /-- The watches, one for a place at most. -/
  watches : List Watch
  /-- The registered paths, each once. -/
  registrations : List Registration
  /-- The path that a watch is reported under. A watch that has ended may still have one. -/
  names : List (Nat × FilePath)
  /-- The number of the next watch. -/
  next : Nat
deriving DecidableEq, Repr

/-- A change at a place. -/
inductive Change where
  | made (place : Location) (directory : Bool)
  | written (place : Location)
  | gone (place : Location) (directory : Bool)
deriving DecidableEq, Repr

namespace Watcher

/-- A watcher without paths. -/
def empty : Watcher := ⟨[], [], [], 0⟩

/-- The watch on a place. -/
def watchAt? (w : Watcher) (place : Location) : Option Watch :=
  w.watches.find? (·.place = place)

/-- The watch of that number has not ended. -/
def lasts (w : Watcher) (number : Nat) : Bool :=
  w.watches.any (·.number = number)

/-- The registration of a path. -/
def registration? (w : Watcher) (path : FilePath) : Option Registration :=
  w.registrations.find? (·.path.same path)

/-- The path is registered. -/
def holds (w : Watcher) (path : FilePath) : Bool :=
  (w.registration? path).isSome

/-- The watcher without the registration of a path. The watch stays. -/
def forget (w : Watcher) (path : FilePath) : Watcher :=
  { w with registrations := w.registrations.filter (!·.path.same path) }

/-- The watcher without a watch, which nothing is reported under any more. -/
def release (w : Watcher) (number : Nat) : Watcher :=
  { w with
    watches := w.watches.filter (·.number ≠ number)
    names := w.names.filter (·.1 ≠ number) }

/-! ### Registering -/

/-- The watcher with a watch on a place: the one that is there, told anew whether removal is of
    interest, or a new one. A path that was registered before does not lose interest. -/
def withWatch (w : Watcher) (place : Location) (tellsRemoval again : Bool) : Watcher × Nat :=
  match w.watchAt? place with
  | some old =>
    let tells := tellsRemoval || again && old.tellsRemoval
    ({ w with
      watches := w.watches.map fun v =>
        if v.number = old.number then { v with tellsRemoval := tells } else v }, old.number)
  | none =>
    ({ w with watches := w.watches ++ [⟨w.next, place, tellsRemoval⟩], next := w.next + 1 }, w.next)

/-- Registers one path, which its watch is reported under from now on. -/
def register (w : Watcher) (path : FilePath) (place : Location) (recursive tellsRemoval : Bool) :
    Watcher :=
  let old := w.registration? path
  let tells := tellsRemoval || old.any (·.tellsRemoval)
  let (w, number) := w.withWatch place tells old.isSome
  { w with
    registrations := (w.forget path).registrations ++ [⟨path, number, tells, recursive⟩]
    names := w.names.filter (·.1 ≠ number) ++ [(number, path)] }

/-- The directories at and below a path, at most `n` levels deep. A link back to a directory
    above is not followed. -/
def directoriesFrom (m : Machine) : Nat → List Location → FilePath → List (FilePath × Location)
  | 0, _, _ => []
  | n + 1, seen, path =>
    match m.resolve path with
    | .error _ => []
    | .ok place =>
      if m.files.entryAt place ≠ some .directory ∨ seen.contains place then []
      else
        (path, place) :: (m.files.childNames place).flatMap fun name : String =>
          directoriesFrom m n (place :: seen) (path.join ⟨name⟩)

/-- The directories at and below a path. -/
def directories (m : Machine) (path : FilePath) : List (FilePath × Location) :=
  directoriesFrom m (m.files.places.length + 2) [] path

/-- Registers directories one after the other. -/
def registerAll (w : Watcher) (found : List (FilePath × Location)) : Watcher :=
  found.foldl (fun w f => w.register f.1 f.2 true false) w

/-- Registers a path, and if it is a directory every directory below it. Only the removal of the
    path itself is of interest, as that of the others is told by the directories above them. -/
def watch (w : Watcher) (m : Machine) (path : FilePath) : Option Watcher :=
  let path := m.workingPath.join path
  match m.resolve path with
  | .error _ => none
  | .ok place =>
    match directories m path with
    | [] => some (w.register path place false true)
    | first :: below => some ((w.register first.1 first.2 true true).registerAll below)

/-! ### Removing -/

/-- Removes what is reported under a path or below it, and says if that went well: none of the
    watches may have ended. -/
def removeBelow (w : Watcher) (path : FilePath) : Watcher × Bool :=
  let below := w.names.filter (·.2.startsWith path)
  if below.all fun name => w.lasts name.1 then
    (below.foldl (fun w name => (w.release name.1).forget name.2) w, true)
  else (w, false)

/-- Removes a registered path, and every path below it where `all` are asked for or they came
    with it. It says if that went well: the path has to be registered and its watch must not
    have ended. -/
def remove (w : Watcher) (path : FilePath) (all : Bool) : Watcher × Bool :=
  match w.registration? path with
  | none => (w, false)
  | some r =>
    let w := w.forget path
    if w.lasts r.number then
      if r.recursive || all then (w.release r.number).removeBelow path
      else (w.release r.number, true)
    else (w, false)

/-- Removes a path that was given to `watch`. -/
def unwatch (w : Watcher) (m : Machine) (path : FilePath) : Watcher × Bool :=
  w.remove (m.workingPath.join path) false

/-! ### Changes -/

/-- The path that a watch on a place is reported under. -/
def nameOf? (w : Watcher) (place : Location) : Option FilePath :=
  (w.watchAt? place).bind fun watch => w.names.lookup watch.number

/-- The path that a change is reported under by the directory it happened in. -/
def nameAbove? (w : Watcher) (place : Location) : Option FilePath :=
  match place.getLast? with
  | none => none
  | some name => (w.nameOf? place.dropLast).map fun path => path.join ⟨name⟩

/-- The path that the removal of a place is reported under by its own watch. -/
def nameOfRemoval? (w : Watcher) (place : Location) : Option FilePath :=
  if (w.watchAt? place).any (·.tellsRemoval) then w.nameOf? place else none

/-- The paths that a change is reported under: by the directory it happened in, and by its own
    watch. A file that is removed loses its name first. -/
def reports (w : Watcher) : Change → List FilePath
  | .made place _ => (w.nameAbove? place).toList
  | .written place => (w.nameAbove? place).toList ++ (w.nameOf? place).toList
  | .gone place true => (w.nameAbove? place).toList ++ (w.nameOfRemoval? place).toList
  | .gone place false => (w.nameOf? place).toList ++ (w.nameAbove? place).toList

/-- The watcher once the watch on a place has ended. What it was reported under is kept. -/
def lose (w : Watcher) (place : Location) : Watcher :=
  { w with watches := w.watches.filter (·.place ≠ place) }

/-- Keeps up with a change: the paths that a removal was reported under are removed, and a new
    directory in a registered one is registered. -/
def follow (w : Watcher) (m : Machine) : Change → Watcher
  | .written _ => w
  | .gone place _ =>
    let reported := (w.nameAbove? place).toList ++ (w.nameOfRemoval? place).toList
    reported.foldl (fun w path => (w.remove path true).1) (w.lose place)
  | .made place directory =>
    match directory, w.nameAbove? place, (w.nameOf? place.dropLast).bind w.registration? with
    | true, some path, some above =>
      if above.recursive then w.registerAll (directories m path) else w
    | _, _, _ => w

end Watcher

end Hosting
