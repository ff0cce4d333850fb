import Hosting.Proofs.Json.Meanings

/-! # What a choice makes of a text

    A value that is one of several named cases is its name alone, or an object with the name as
    its only key. In an object even a case that needs no value has one, which is `null`.

    - `choiceOf`: what a text is taken for.
    - `caseName_key`, `restOfCase_text`: the two halves of an object.
    - `means_choice`: the reader does the same.
-/

namespace Hosting.Json

variable {α : Type} {cases : List (String × Case α)} {gap rest : List Char}

/-- What the name of a case is taken for where it stands alone. -/
def plainOf (cases : List (String × Case α)) (name : String) : Option α :=
  match cases.lookup name with
  | some (.plain v) => some v
  | _ => none

/-- What a case is taken for whose name is a key. -/
def contentOf (cases : List (String × Case α)) (name : String) (w : Wording) : Option α :=
  (cases.lookup name).bind fun body => meaning (choice.content body) w

def choiceOf (cases : List (String × Case α)) : Wording → Option α
  | .quoted ps => (Piece.string? ps).bind (plainOf cases)
  | .object [m] _ => m.name?.bind fun name => contentOf cases name m.value
  | _ => none

theorem regular_content {v : α} : Regular (choice.content (.plain v)) :=
  (means_null.map fun _ => v).regular

theorem choice_quoted (ps : List Piece) (hgap : IsGap gap) (rest : List Char) :
    (choice cases (gap ++ ((Wording.quoted ps).text ++ rest))).toOption =
      ((Piece.string? ps).bind (plainOf cases)).map (·, rest) := by
  have hname := string_pieces ps rest
  unfold choice plainOf
  rw [afterGap_append hgap, Wording.text, quotedText_append, afterGap_cons rfl]
  rcases fails_or_reads hname with ⟨fault, hfault, hnone⟩ | ⟨name, hok, hsome⟩
  · simp only [hfault, hnone]
    rfl
  · simp only [hok, hsome, Option.bind_some]
    cases cases.lookup name with
    | none => rfl
    | some body => cases body <;> rfl

/-! ### Objects -/

theorem caseName_key (hgap : IsGap gap) (key : List Piece) (rest : List Char) :
    (choice.caseName (gap ++ (Piece.quotedText key ++ rest))).toOption =
      (Piece.string? key).map (·, rest) := by
  unfold choice.caseName
  rw [afterGap_append hgap, quotedText_append, afterGap_cons rfl]
  exact string_pieces key rest

/-- What is left to do behind the name of a case. -/
def restOfCase (cases : List (String × Case α)) (name : String) : Reader α := fun cs =>
  match cases.lookup name with
  | none => .error .mistyped
  | some body =>
    match afterColon cs with
    | .error fault => .error fault
    | .ok r =>
      match choice.content body r with
      | .error fault => .error fault
      | .ok (v, r) => (closeObject r).map (v, ·)

theorem choice_open (hgap : IsGap gap) (cs : List Char) :
    choice cases (gap ++ '\x7b' :: cs) =
      (choice.caseName cs).bind fun found => restOfCase cases found.1 found.2 := by
  unfold choice restOfCase
  rw [afterGap_append hgap, afterGap_cons rfl]
  cases hname : choice.caseName cs with
  | error fault => simp only [hname]; rfl
  | ok found => simp only [hname]; rfl

/-- The value of the case is read, and has to be the last of the object. -/
theorem restOfCase_text (hreg : ∀ p ∈ cases, Regular (choice.content p.2)) (name : String)
    (m : Member Wording) (ms : List (Member Wording)) (inside : Gap) (rest : List Char) :
    (restOfCase cases name (m.afterKey.val ++ ':' :: (m.beforeValue.val ++ (m.value.text ++
        (m.after.val ++ (Wording.moreMembers ms ++ (inside.val ++ '\x7d' :: rest))))))).toOption =
      (if ms = [] then contentOf cases name m.value else none).map (·, rest) := by
  have hends := (ends_moreMembers ms inside rest).gap_append m.after.property
  unfold restOfCase contentOf
  cases hbody : cases.lookup name with
  | none => cases ms <;> rfl
  | some body =>
    obtain ⟨before, behind, rfl, -⟩ := List.lookup_eq_some_iff.1 hbody
    have hread := hreg (name, body) (by simp) m.value m.beforeValue.property hends
    simp only [afterColon_gap m.afterKey.property, Option.bind_some]
    rcases fails_or_reads hread with ⟨fault, hfault, hnone⟩ | ⟨v, hok, hsome⟩
    · rw [hfault, hnone]
      cases ms <;> rfl
    · rw [hok, hsome]
      simp only
      -- another member in the place of the brace is refused
      cases ms with
      | nil =>
        rw [Wording.moreMembers, List.nil_append, ← List.append_assoc,
          closeObject_close (m.after.property.append inside.property)]
        rfl
      | cons m' ms =>
        rw [Wording.moreMembers, List.cons_append, closeObject_comma m.after.property]
        rfl

theorem choice_object (hreg : ∀ p ∈ cases, Regular (choice.content p.2))
    (ms : List (Member Wording)) (inside : Gap) (hgap : IsGap gap) (rest : List Char) :
    (choice cases (gap ++ ((Wording.object ms inside).text ++ rest))).toOption =
      (choiceOf cases (.object ms inside)).map (·, rest) := by
  rw [Wording.text_object_append, choice_open hgap, toOption_bind]
  cases ms with
  | nil =>
    unfold choice.caseName
    rw [Wording.membersText, List.nil_append, afterGap_append inside.property]
    rfl
  | cons m ms =>
    have hname := caseName_key m.before.property m.key
      (m.afterKey.val ++ ':' :: (m.beforeValue.val ++ (m.value.text ++
        (m.after.val ++ (Wording.moreMembers ms ++ (inside.val ++ '\x7d' :: rest))))))
    simp only [Wording.membersText, List.append_assoc, List.cons_append]
    rw [hname]
    cases hs : Piece.string? m.key with
    | none => cases ms <;> simp [choiceOf, Member.name?, hs]
    | some name =>
      have hrest := restOfCase_text hreg name m ms inside rest
      simp only [Option.map_some, Option.bind_some, hrest]
      cases ms <;> simp [choiceOf, Member.name?, hs]

theorem means_choice (hreg : ∀ p ∈ cases, Regular (choice.content p.2)) :
    Means (choice cases) (choiceOf cases) := by
  intro w gap rest hgap _
  have hother (htext : w.kind ≠ .text) (hobject : w.kind ≠ .object) :
      (choice cases (gap ++ (w.text ++ rest))).toOption = none := by
    obtain ⟨c, tail, hcons, hc, hkind⟩ := w.first
    unfold choice
    rw [afterGap_append hgap, hcons, List.cons_append, afterGap_cons hc]
    split
    · rfl
    · next heq =>
      obtain ⟨rfl, -⟩ := List.cons.inj heq
      exact absurd hkind.symm htext
    · next heq =>
      obtain ⟨rfl, -⟩ := List.cons.inj heq
      exact absurd hkind.symm hobject
    · rfl
  cases w with
  | quoted ps => exact choice_quoted ps hgap rest
  | object ms inside => exact choice_object hreg ms inside hgap rest
  | _ => exact hother (by simp [Wording.kind]) (by simp [Wording.kind])

end Hosting.Json
