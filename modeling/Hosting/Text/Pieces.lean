/-! # Pieces between separators

    Classpaths, URI paths and file paths are all read as pieces between separators, of
    characters or of what a file path has in their place. `pieces sep cs` keeps the empty
    pieces, so that joining gives the text back; each caller drops what it has no use for.

    - `pieces` splits, `joined` puts one character between the pieces;
    - `joined_pieces` says that nothing is lost;
    - `pieces_joined` says that pieces without separators are found again.
-/

namespace Hosting.Text

variable {α : Type}

/-- The maximal runs of characters outside `sep`, in order, empty ones included. -/
def pieces (sep : α → Bool) : List α → List (List α)
  | [] => [[]]
  | c :: cs =>
    if sep c then [] :: pieces sep cs
    else
      match pieces sep cs with
      | [] => [[c]]
      | run :: runs => (c :: run) :: runs

/-- The pieces of a text between slashes. -/
def segments (cs : List Char) : List (List Char) :=
  pieces (· == '/') cs

/-- The runs in order, with `c` between any two of them. -/
def joined (c : α) : List (List α) → List α
  | [] => []
  | [run] => run
  | run :: runs => run ++ c :: joined c runs

/-! ### Splitting and joining -/

theorem pieces_ne_nil (sep : α → Bool) (cs : List α) : pieces sep cs ≠ [] := by
  cases cs with
  | nil => simp [pieces]
  | cons c cs =>
    rw [pieces]
    split
    · simp
    · split <;> simp

theorem joined_pieces [DecidableEq α] (c : α) (cs : List α) :
    joined c (pieces (· == c) cs) = cs := by
  induction cs with
  | nil => rfl
  | cons d cs ih =>
    rw [pieces]
    split
    · next h =>
      simp only [beq_iff_eq] at h
      cases hp : pieces (· == c) cs with
      | nil => exact absurd hp (pieces_ne_nil _ _)
      | cons run runs => rw [joined, ← hp, ih, h]; simp; simp
    · cases hp : pieces (· == c) cs with
      | nil => exact absurd hp (pieces_ne_nil _ _)
      | cons run runs =>
        rw [hp] at ih
        cases runs <;> simp_all [joined]

/-- No piece contains a separator. -/
theorem not_sep_of_mem_pieces {sep : α → Bool} {cs run : List α}
    (h : run ∈ pieces sep cs) : ∀ c ∈ run, sep c = false := by
  induction cs generalizing run with
  | nil => simp_all [pieces]
  | cons d cs ih =>
    rw [pieces] at h
    split at h
    · rcases List.mem_cons.1 h with rfl | h
      · simp
      · exact ih h
    · next hd =>
      split at h
      · simp_all
      · next head rest hp =>
        rcases List.mem_cons.1 h with rfl | h
        · intro c hc
          rcases List.mem_cons.1 hc with rfl | hc
          · simpa using hd
          · exact ih (by simp [hp]) c hc
        · exact ih (by simp [hp, h])

theorem pieces_of_not_sep {sep : α → Bool} {run : List α}
    (h : ∀ c ∈ run, sep c = false) : pieces sep run = [run] := by
  induction run with
  | nil => rfl
  | cons c cs ih =>
    rw [pieces, ih fun d hd => h d (by simp [hd])]
    simp [h c (by simp)]

theorem pieces_append_sep {sep : α → Bool} {run : List α} {c : α} (cs : List α)
    (h : ∀ d ∈ run, sep d = false) (hc : sep c) :
    pieces sep (run ++ c :: cs) = run :: pieces sep cs := by
  induction run with
  | nil => simp [pieces, hc]
  | cons d run ih =>
    rw [List.cons_append, pieces, ih fun e he => h e (by simp [he])]
    simp [h d (by simp)]

theorem pieces_joined [DecidableEq α] {c : α} {runs : List (List α)} (hne : runs ≠ [])
    (h : ∀ run ∈ runs, c ∉ run) : pieces (· == c) (joined c runs) = runs := by
  induction runs with
  | nil => contradiction
  | cons run runs ih =>
    have hrun : ∀ d ∈ run, (d == c) = false := by
      intro d hd
      simp only [beq_eq_false_iff_ne]
      rintro rfl
      exact h run (by simp) hd
    cases runs with
    | nil => rw [joined]; exact pieces_of_not_sep hrun
    | cons next rest =>
      rw [joined, pieces_append_sep _ hrun (by simp), ih (by simp)]
      · intro r hr; exact h r (by simp [hr])
      · simp

end Hosting.Text
