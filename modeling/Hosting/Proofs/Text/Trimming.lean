import Hosting.Text.Blank
import Mathlib.Data.List.DropRight
import Mathlib.Data.List.TakeWhile

/-! # Trimming

    Trimming takes a run of characters off the right end of a text, or off both of its ends. What
    is left has no such character at these ends, and a text without them is left as it is. So
    trimming can be told from the outside: what is taken off lies around what is left.

    - `dropEnd_eq_rdropWhile`: the right end, by the lemmas of the library.
    - `dropEnd_of_getLast`, `strip_of_ends`, `strip_of_not`: texts with nothing to take off.
    - `head?_strip`, `getLast?_strip`: what is left.
    - `exists_around`, `strip_around`: what is taken off.
-/

namespace Hosting.Text

variable {p : Char → Bool} {cs run : List Char}

/-! ### The right end -/

/-- The run is dropped as from the front of the text in reverse. -/
theorem dropEnd_eq_rdropWhile (p : Char → Bool) (cs : List Char) :
    dropEnd p cs = cs.rdropWhile p := by
  induction cs with
  | nil => rfl
  | cons c cs ih =>
    unfold List.rdropWhile at ih ⊢
    rw [dropEnd, ih, List.reverse_cons, List.dropWhile_append]
    cases h : cs.reverse.dropWhile p with
    | nil =>
      cases hc : p c <;> simp [hc]
    | cons d kept =>
      simp only [List.isEmpty_cons, Bool.false_eq_true, if_false, List.reverse_append,
        List.reverse_cons, List.reverse_nil, List.nil_append, List.cons_append]
      split
      · next heq => simp at heq
      · rfl

/-- The dropped run is trailing and lies in `p`. -/
theorem dropEnd_append (p : Char → Bool) (cs : List Char) :
    ∃ run, cs = dropEnd p cs ++ run ∧ ∀ c ∈ run, p c = true := by
  refine ⟨cs.rtakeWhile p, ?_, fun c hc => List.mem_rtakeWhile_imp hc⟩
  rw [dropEnd_eq_rdropWhile, List.rdropWhile_append_rtakeWhile]

/-- What is left does not end in `p`. -/
theorem dropEnd_getLast {c : Char} (h : (dropEnd p cs).getLast? = some c) : p c = false := by
  rw [dropEnd_eq_rdropWhile] at h
  have hne : cs.rdropWhile p ≠ [] := by
    intro hnil
    rw [hnil] at h
    cases h
  rw [List.getLast?_eq_some_getLast hne] at h
  obtain rfl := Option.some.inj h
  exact Bool.eq_false_iff.2 (List.rdropWhile_last_not p cs hne)

theorem dropEnd_of_getLast (h : ∀ c, cs.getLast? = some c → p c = false) :
    dropEnd p cs = cs := by
  rw [dropEnd_eq_rdropWhile, List.rdropWhile_eq_self_iff]
  intro hne hp
  rw [h _ (List.getLast?_eq_some_getLast hne)] at hp
  cases hp

/-- A run at the end is dropped with whatever is dropped before it. -/
theorem dropEnd_append_run (cs : List Char) (hrun : ∀ c ∈ run, p c = true) :
    dropEnd p (cs ++ run) = dropEnd p cs := by
  have hreverse : ∀ c ∈ run.reverse, p c = true := fun c hc => hrun c (List.mem_reverse.1 hc)
  simp only [dropEnd_eq_rdropWhile, List.rdropWhile, List.reverse_append]
  rw [List.dropWhile_append_of_pos hreverse]

/-! ### Both ends -/

/-- A text is not trimmed where it neither begins nor ends with something to drop. -/
theorem strip_of_ends (hhead : ∀ c, cs.head? = some c → p c = false)
    (hlast : ∀ c, cs.getLast? = some c → p c = false) : strip p cs = cs := by
  have hfront : cs.dropWhile p = cs := by
    cases cs with
    | nil => rfl
    | cons c rest =>
      have hc : p c = false := hhead c rfl
      exact List.dropWhile_cons_of_neg (by rw [hc]; simp)
  unfold strip
  rw [hfront]
  exact dropEnd_of_getLast hlast

theorem strip_of_not (h : ∀ c ∈ cs, p c = false) : strip p cs = cs := by
  apply strip_of_ends
  · intro c hhead
    exact h c (List.mem_of_head? hhead)
  · intro c hlast
    exact h c (List.mem_of_getLast? hlast)

theorem head?_strip {c : Char} (h : (strip p cs).head? = some c) : p c = false := by
  -- trimming the end leaves the front as it is
  obtain ⟨run, hrun, -⟩ := dropEnd_append p (cs.dropWhile p)
  have hfront : (cs.dropWhile p).head? = some c := by
    rw [hrun, List.head?_append]
    unfold strip at h
    rw [h]
    rfl
  have hstops := List.head?_dropWhile_not p cs
  rw [hfront] at hstops
  exact hstops

theorem getLast?_strip {c : Char} (h : (strip p cs).getLast? = some c) : p c = false :=
  dropEnd_getLast h

theorem strip_strip (cs : List Char) : strip p (strip p cs) = strip p cs := by
  apply strip_of_ends
  · intro c hhead
    exact head?_strip hhead
  · intro c hlast
    exact getLast?_strip hlast

/-- A text is what trimming leaves of it, with what is dropped around it. -/
theorem exists_around (p : Char → Bool) (cs : List Char) :
    ∃ before behind, cs = before ++ (strip p cs ++ behind) ∧ (∀ c ∈ before, p c = true) ∧
      ∀ c ∈ behind, p c = true := by
  obtain ⟨behind, heq, hbehind⟩ := dropEnd_append p (cs.dropWhile p)
  refine ⟨cs.takeWhile p, behind, ?_, fun c hc => List.mem_takeWhile_imp hc, hbehind⟩
  unfold strip
  rw [← heq, List.takeWhile_append_dropWhile]

/-- Whatever is put around a text, if it is to be dropped, makes no difference to trimming. -/
theorem strip_around {before behind : List Char} (hbefore : ∀ c ∈ before, p c = true)
    (cs : List Char) (hbehind : ∀ c ∈ behind, p c = true) :
    strip p (before ++ (cs ++ behind)) = strip p cs := by
  unfold strip
  rw [List.dropWhile_append_of_pos hbefore, List.dropWhile_append]
  by_cases hall : (cs.dropWhile p).isEmpty = true
  · -- nothing of the text is left, and nothing of what follows it either
    have hnone : behind.dropWhile p = [] := List.dropWhile_eq_nil_iff.2 hbehind
    rw [if_pos hall, hnone, List.isEmpty_iff.1 hall]
  · rw [if_neg hall]
    exact dropEnd_append_run _ hbehind

end Hosting.Text
