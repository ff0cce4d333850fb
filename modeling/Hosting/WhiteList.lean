import Hosting.ContextPath

/-! # White lists

    Which paths an application may look up in other applications. Without a list every
    path may be looked up; an empty list leaves an application to itself.

    - `permits` decides one lookup.
-/

namespace Hosting

/-- The paths that an application may look up. -/
inductive WhiteList where
  | unset
  /-- The listed paths, in order and each once. -/
  | restricted (entries : List String) (ordered : entries.Pairwise fun a b => a < b)
deriving DecidableEq, Repr

namespace WhiteList

/-! ### Ordered entries -/

/-- Adds an entry in its place, unless it is there. -/
def insertEntry (entry : String) : List String → List String
  | [] => [entry]
  | e :: rest =>
    if entry < e then entry :: e :: rest
    else if entry = e then e :: rest
    else e :: insertEntry entry rest

theorem mem_insertEntry_iff {x entry : String} {entries : List String} :
    x ∈ insertEntry entry entries ↔ x = entry ∨ x ∈ entries := by
  induction entries with
  | nil => simp [insertEntry]
  | cons e rest ih =>
    rw [insertEntry]
    split
    · simp
    · split
      · next h => simp [h]
      · rw [List.mem_cons, ih, List.mem_cons]
        exact or_left_comm

theorem ordered_insertEntry (entry : String) {entries : List String}
    (h : entries.Pairwise fun a b => a < b) :
    (insertEntry entry entries).Pairwise fun a b => a < b := by
  induction entries with
  | nil => simp [insertEntry]
  | cons e rest ih =>
    obtain ⟨hhead, hrest⟩ := List.pairwise_cons.1 h
    rw [insertEntry]
    split
    · next hlt =>
      refine List.pairwise_cons.2 ⟨fun b hb => ?_, h⟩
      rcases List.mem_cons.1 hb with rfl | hb
      · exact hlt
      · exact String.lt_trans hlt (hhead b hb)
    · next hnlt =>
      split
      · exact h
      · next hne =>
        refine List.pairwise_cons.2 ⟨fun b hb => ?_, ih hrest⟩
        rcases mem_insertEntry_iff.1 hb with rfl | hb
        · refine Classical.byContradiction fun hnlt' => hne ?_
          exact String.le_antisymm (String.not_lt.1 hnlt') (String.not_lt.1 hnlt)
        · exact hhead b hb

/-- The entries in order, each once. -/
def sortEntries (entries : List String) : List String :=
  entries.foldr insertEntry []

theorem ordered_sortEntries (entries : List String) :
    (sortEntries entries).Pairwise fun a b => a < b := by
  induction entries with
  | nil => exact .nil
  | cons e rest ih => exact ordered_insertEntry e ih

/-! ### White lists -/

/-- The list with the given entries. -/
def ofEntries (entries : List String) : WhiteList :=
  .restricted (sortEntries entries) (ordered_sortEntries entries)

/-- No list where there are no entries to go by. -/
def ofOption : Option (List String) → WhiteList
  | some entries => ofEntries entries
  | none => .unset

/-- There is a list. -/
def isSet : WhiteList → Bool
  | .unset => false
  | .restricted _ _ => true

/-- The path is listed. -/
def contains : WhiteList → String → Bool
  | .unset, _ => false
  | .restricted entries _, path => entries.contains path

/-- `target` lies inside the context at `requesting`. The root context has only `/` inside. -/
def isWithin (requesting target : String) : Bool :=
  if requesting = "/" ∨ requesting = "" then target == "/"
  else
    match ContextPath.remainder? requesting.toList target.toList with
    | some rest => ContextPath.startsSegment rest
    | none => false

/-- A lookup of `target` from the context at `requesting` is permitted. -/
def permits (w : WhiteList) (requesting target : String) : Bool :=
  match w with
  | .unset => true
  | .restricted entries _ => entries.contains target || isWithin requesting target

/-- A white list as it stands in a JSON text. -/
def json : WhiteList → Json
  | .unset => .text "Unset"
  | .restricted entries _ => .object [("Restricted", Json.texts entries)]

/-- The two kinds of white list. -/
def cases : List (String × Json.Case WhiteList) :=
  [("Unset", .plain .unset),
   ("Restricted", .carrying (Json.readMap ofEntries (Json.readList Json.readText)))]

/-- Reads a white list. -/
def reader : Reader WhiteList := Json.choice cases

end WhiteList

end Hosting
