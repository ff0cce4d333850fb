import Hosting.ContextPath
import Hosting.FilePath

/-! # Who owns a change

    A change below the content of an application belongs to that application. Contents may
    lie inside each other, and then the deepest one counts.

    - `Roots.owner?` finds the context that a changed path belongs to.
-/

namespace Hosting

/-- The content directories that are watched, each with its context, oldest first. -/
abbrev Roots := List (FilePath × ContextPath)

namespace Roots

/-- The number of components of a root. -/
def depth (root : FilePath × ContextPath) : Nat :=
  root.1.components.length

/-- The deepest of some roots, and the last of those that are equally deep. -/
def deepest : Roots → Option (FilePath × ContextPath)
  | [] => none
  | root :: rest =>
    match deepest rest with
    | none => some root
    | some best => if depth best < depth root then some root else some best

/-- The roots that a path lies in. -/
def above (roots : Roots) (path : FilePath) : Roots :=
  roots.filter fun root => path.startsWith root.1

/-- The context that a change at a path belongs to. -/
def owner? (roots : Roots) (path : FilePath) : Option ContextPath :=
  (deepest (roots.above path)).map (·.2)

end Roots

end Hosting
