import Hosting.Proofs.Json.Choices
import Hosting.Proofs.Json.Layouts

/-! # Values read in any wording

    A value has many texts, and the host writes it as one or the other of these. A reader that
    takes all of them as the same therefore reads back what the host writes, and what anybody
    else writes for the same value.

    - `Takes`: every text of the value is taken as `v`.
    - `takes_text` to `takes_carrying`: one lemma for each reader.
    - `readAll_document`, `readAll_of_takes`: whole texts, and the host's own among them.
-/

namespace Hosting.Json

variable {α β : Type} {item : Reader α} {v : α} {j : Json}

/-- However the value is worded, the reader takes it as `v`. -/
def Takes (item : Reader α) (j : Json) (v : α) : Prop :=
  ∀ w : Wording, w.value? = some j → meaning item w = some v

/-- There is a text of each value, so what it is taken as is one thing at most. -/
theorem Takes.unique {v' : α} (h : Takes item j v) (h' : Takes item j v') : v = v' := by
  have hw := Layout.value?_wording .tight 0 j
  exact Option.some.inj ((h _ hw).symm.trans (h' _ hw))

theorem Takes.map (h : Takes item j v) (f : α → β) : Takes (readMap f item) j (f v) := by
  intro w hw
  rw [meaning_map, h w hw, Option.map_some]

/-! ### Values without parts -/

theorem takes_text (s : String) : Takes readText (.text s) s := by
  intro w hw
  rw [means_text.meaning_eq]
  cases w <;> simp_all [Wording.value?, textOf]

theorem takes_bool (b : Bool) : Takes readBool (.bool b) b := by
  intro w hw
  rw [means_bool.meaning_eq]
  cases w <;> simp_all [Wording.value?, boolOf]

theorem takes_count (n : UInt32) : Takes readCount (.number n.toNat) n := by
  intro w hw
  have hrange : n.toNat < 4294967296 := n.toNat_lt
  rw [means_count.meaning_eq]
  cases w <;> simp_all [Wording.value?, countOf]

/-- A string that is accepted. -/
theorem takes_parsed {f : String → Option α} {s : String} (h : f s = some v) :
    Takes (readParsed f) (.text s) v := by
  intro w hw
  have htext := takes_text s w hw
  rw [means_text.meaning_eq] at htext
  rw [(means_parsed f).meaning_eq, parsedOf, htext, Option.bind_some, h]

/-! ### Options -/

theorem takes_none (hreg : Regular item) : Takes (readOption item) .null none := by
  intro w hw
  rw [(means_option hreg).meaning_eq]
  cases w <;> simp_all [Wording.value?, optionOf]

theorem takes_some (hreg : Regular item) (h : Takes item j v) (hj : j ≠ .null) :
    Takes (readOption item) j (some v) := by
  intro w hw
  have hkind : w.kind ≠ .null := by
    intro hnull
    cases w with
    | null => exact hj (Option.some.inj hw).symm
    | _ => cases hnull
  rw [(means_option hreg).meaning_eq, optionOf_of_kind hkind, h w hw, Option.map_some]

theorem takes_optional {write : α → Json} (hreg : Regular item)
    (h : ∀ v, Takes item (write v) v) (hnull : ∀ v, write v ≠ .null) :
    ∀ v?, Takes (readOption item) (optional write v?) v?
  | none => takes_none hreg
  | some v => takes_some hreg (h v) (hnull v)

/-! ### Arrays -/

theorem elementsOf_values {write : α → Json} {xs : List α}
    (hxs : ∀ x ∈ xs, Takes item (write x) x) {es : List (Element Wording)}
    (hes : Wording.values? es = some (xs.map write)) : elementsOf (meaning item) es = some xs := by
  induction xs generalizing es with
  | nil =>
    rw [Wording.eq_nil_of_values? hes]
    rfl
  | cons x xs ih =>
    obtain ⟨e, rest, rfl, hvalue, hrest⟩ := Wording.exists_of_values? hes
    rw [elementsOf_cons, hxs x (by simp) e.value hvalue,
      ih (fun y hy => hxs y (by simp [hy])) hrest]
    rfl

theorem takes_list {write : α → Json} {xs : List α} (hreg : Regular item)
    (hxs : ∀ x ∈ xs, Takes item (write x) x) :
    Takes (readList item) (.array (xs.map write)) xs := by
  intro w hw
  rw [(means_list hreg).meaning_eq]
  cases w with
  | array es inside =>
    obtain ⟨js, hjs, heq⟩ := Option.map_eq_some_iff.1 hw
    cases heq
    exact elementsOf_values hxs hjs
  | _ => simp [Wording.value?] at hw

theorem takes_pair {right : Reader β} {j' : Json} {v' : β} (hreg : Regular item)
    (hreg' : Regular right) (h : Takes item j v) (h' : Takes right j' v') :
    Takes (readPair item right) (.array [j, j']) (v, v') := by
  intro w hw
  rw [(means_pair hreg hreg').meaning_eq]
  cases w with
  | array es inside =>
    obtain ⟨js, hjs, heq⟩ := Option.map_eq_some_iff.1 hw
    cases heq
    obtain ⟨e, es, rfl, hvalue, hes⟩ := Wording.exists_of_values? hjs
    obtain ⟨e', es, rfl, hvalue', hes⟩ := Wording.exists_of_values? hes
    obtain rfl := Wording.eq_nil_of_values? hes
    rw [pairOf, h e.value hvalue, Option.bind_some, h' e'.value hvalue', Option.map_some]
  | _ => simp [Wording.value?] at hw

/-! ### Named cases -/

section Cases

variable {cases : List (String × Case α)} {name : String}

/-- A case that is a name alone. -/
theorem takes_plain (hreg : ∀ p ∈ cases, Regular (choice.content p.2))
    (h : cases.lookup name = some (.plain v)) : Takes (choice cases) (.text name) v := by
  intro w hw
  rw [(means_choice hreg).meaning_eq]
  cases w <;> simp_all [Wording.value?, choiceOf, plainOf]

/-- A case with a value, which is the only member of an object. -/
theorem takes_carrying (hreg : ∀ p ∈ cases, Regular (choice.content p.2))
    (h : cases.lookup name = some (.carrying item)) (hv : Takes item j v) :
    Takes (choice cases) (.object [(name, j)]) v := by
  intro w hw
  rw [(means_choice hreg).meaning_eq]
  cases w with
  | object ms inside =>
    obtain ⟨pairs, hpairs, heq⟩ := Option.map_eq_some_iff.1 hw
    cases heq
    obtain ⟨m, ms, rfl, hname, hvalue, hms⟩ := Wording.exists_of_pairs? hpairs
    obtain rfl := Wording.eq_nil_of_pairs? hms
    rw [choiceOf, hname, Option.bind_some, contentOf, h, Option.bind_some]
    exact hv m.value hvalue
  | _ => simp [Wording.value?] at hw

end Cases

/-! ### Whole texts -/

/-- A text with one value in it, and blanks around that. -/
def Wording.document (before : Gap) (w : Wording) (after : Gap) : String :=
  .ofList (before.val ++ (w.text ++ after.val))

/-- A whole text is read as what the reader makes of the value in it. -/
theorem readAll_document (hreg : Regular item) (w : Wording) (before after : Gap) :
    (readAll item (w.document before after)).toOption = meaning item w := by
  have hends : Ends after.val := by
    have hgap := ends_nil.gap_append after.property
    rwa [List.append_nil] at hgap
  have hblank : afterGap after.val = [] := by
    rw [← List.append_nil after.val, afterGap_append after.property]
    rfl
  have hread := hreg w before.property hends
  unfold readAll Wording.document
  rw [String.toList_ofList]
  -- behind the value only blanks are left, and these are no fault
  rcases fails_or_reads hread with ⟨fault, hfault, hnone⟩ | ⟨v, hok, hsome⟩
  · rw [hfault, hnone]
    rfl
  · rw [hok, hsome]
    simp only [hblank]
    rfl

theorem toText_eq (j : Json) : j.toText = (Layout.tight.wording 0 j).document .none .none := by
  unfold toText Wording.document Gap.none
  rw [← Layout.text_tight 0, List.nil_append, List.append_nil]

theorem toPrettyText_eq (j : Json) :
    j.toPrettyText = (Layout.indented.wording 0 j).document .none .none := by
  unfold toPrettyText Wording.document Gap.none
  rw [← Layout.text_indented, List.nil_append, List.append_nil]

/-- Both texts that the host writes are read back. -/
theorem readAll_of_takes (hreg : Regular item) (h : Takes item j v) :
    readAll item j.toText = .ok v ∧ readAll item j.toPrettyText = .ok v := by
  constructor
  · rw [← toOption_eq_some_iff, toText_eq, readAll_document hreg]
    exact h _ (Layout.value?_wording ..)
  · rw [← toOption_eq_some_iff, toPrettyText_eq, readAll_document hreg]
    exact h _ (Layout.value?_wording ..)

end Hosting.Json
