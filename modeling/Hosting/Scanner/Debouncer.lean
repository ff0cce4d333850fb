import Hosting.PathTable

/-! # Debouncing

    One save of an application can change many files at once. A debouncer lets the first
    change of a context through and holds back the others until the context has been quiet
    for a while.

    - `decide` is the decision on one change;
    - `decisions` are the decisions on a run of changes, each of which carries its time.
-/

namespace Hosting

/-- What a debouncer remembers. Times are in milliseconds. -/
structure Debouncer where
  /-- How long a context has to be quiet. -/
  quiet : Nat
  /-- When a change of a context was last let through. -/
  last : PathTable Int

namespace Debouncer

/-- A debouncer that has seen no change. -/
def ofQuiet (quiet : Nat) : Debouncer := ⟨quiet, .empty⟩

/-- A change at `now` comes too soon after the one let through at `previous`. A time before that
    one counts as the same time. -/
def tooSoon (quiet : Nat) (previous now : Int) : Bool :=
  max (now - previous) 0 < quiet

/-- Decides on a change of a context: it is let through, or it is held back and changes
    nothing. -/
def decide (d : Debouncer) (context : ContextPath) (now : Int) : Debouncer × Bool :=
  match d.last.get? context with
  | none => ({ d with last := d.last.insert context now }, true)
  | some previous =>
    if tooSoon d.quiet previous now then (d, false)
    else ({ d with last := d.last.insert context now }, true)

/-- The decisions on changes in the order in which they are seen. -/
def decisions : Debouncer → List (ContextPath × Int) → List Bool
  | _, [] => []
  | d, (context, now) :: rest =>
    let (d, passes) := d.decide context now
    passes :: decisions d rest

end Debouncer

end Hosting
