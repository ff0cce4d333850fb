import Hosting.Scanner.Debouncer
import Mathlib.Data.List.Chain

/-! # Quiet periods

    A debouncer keeps one time for a context: when a change of it was last let through. The
    decision on a change looks at the time of its own context only, and a change that is held
    back leaves no trace. So contexts do not disturb each other, however their changes are
    mixed, and a burst cannot put off its own end.

    - `decide_eq_false_iff`, `get?_decide`: one decision, and what it leaves behind.
    - `judged`, `passed`: a run of changes with its decisions, and what is seen of one context.
    - `judged_filter`: the run of a context within a run of many.
    - `get?_after`: the time that is kept is that of the last change let through.
    - `decisions_exact`: every decision, for any run of changes at any times.
-/

namespace Hosting.Debouncer

variable {d d' : Debouncer} {context : ContextPath} {now : Int}

/-! ### One decision -/

/-- A change is held back if one of its context was let through and less than the quiet period has
    gone by, where time that runs backwards does not count. -/
theorem decide_eq_false_iff :
    (d.decide context now).2 = false ↔
      ∃ e, d.last.get? context = some e ∧ max (now - e) 0 < d.quiet := by
  unfold decide
  cases hlast : d.last.get? context with
  | none => simp
  | some e =>
    have hsoon : tooSoon d.quiet e now = true ↔ max (now - e) 0 < d.quiet := decide_eq_true_iff
    by_cases hheld : tooSoon d.quiet e now = true
    · exact iff_of_true (by simp [hheld]) ⟨e, rfl, hsoon.1 hheld⟩
    · refine iff_of_false (by simp [hheld]) ?_
      rintro ⟨e', he', hlate⟩
      obtain rfl := Option.some.inj he'
      exact hheld (hsoon.2 hlate)

theorem quiet_decide (d : Debouncer) (context : ContextPath) (now : Int) :
    (d.decide context now).1.quiet = d.quiet := by
  unfold decide
  split
  · rfl
  · split <;> rfl

/-- Only a change that is let through is kept, and only for its own context. -/
theorem get?_decide (d : Debouncer) (p context : ContextPath) (now : Int) :
    (d.decide p now).1.last.get? context =
      if p = context ∧ (d.decide p now).2 = true then some now else d.last.get? context := by
  unfold decide
  split
  · simp [eq_comm]
  · split <;> simp [eq_comm]

/-! ### Runs of changes -/

/-- The debouncer after a run of changes. -/
def after (d : Debouncer) (changes : List (ContextPath × Int)) : Debouncer :=
  changes.foldl (fun d change => (d.decide change.1 change.2).1) d

/-- A run of changes, each with the decision on it. -/
def judged (d : Debouncer) (changes : List (ContextPath × Int)) :
    List ((ContextPath × Int) × Bool) :=
  changes.zip (d.decisions changes)

/-- The times of the changes of a context that are let through, in the order in which they are
    seen. -/
def passed (d : Debouncer) (changes : List (ContextPath × Int)) (context : ContextPath) :
    List Int :=
  ((d.judged changes).filter fun j => j.1.1 = context && j.2).map (·.1.2)

theorem decisions_cons (d : Debouncer) (p : ContextPath) (now : Int)
    (rest : List (ContextPath × Int)) :
    d.decisions ((p, now) :: rest) =
      (d.decide p now).2 :: (d.decide p now).1.decisions rest := rfl

theorem length_decisions (d : Debouncer) (changes : List (ContextPath × Int)) :
    (d.decisions changes).length = changes.length := by
  induction changes generalizing d with
  | nil => rfl
  | cons change rest ih => rw [decisions_cons, List.length_cons, List.length_cons, ih]

theorem decisions_append (d : Debouncer) (changes more : List (ContextPath × Int)) :
    d.decisions (changes ++ more) = d.decisions changes ++ (d.after changes).decisions more := by
  induction changes generalizing d with
  | nil => rfl
  | cons change rest ih =>
    rw [List.cons_append, decisions_cons, decisions_cons, ih]
    rfl

/-- The decision on a change within a run is made by the debouncer that the changes before it have
    left behind. -/
theorem getElem?_decisions (d : Debouncer) (before rest : List (ContextPath × Int))
    (context : ContextPath) (now : Int) :
    (d.decisions (before ++ (context, now) :: rest))[before.length]? =
      some ((d.after before).decide context now).2 := by
  rw [decisions_append, ← length_decisions d before, List.getElem?_append_right (Nat.le_refl _),
    Nat.sub_self]
  rfl

theorem quiet_after (d : Debouncer) (changes : List (ContextPath × Int)) :
    (d.after changes).quiet = d.quiet := by
  induction changes generalizing d with
  | nil => rfl
  | cons change rest ih => exact (ih _).trans (quiet_decide d _ _)

theorem judged_cons (d : Debouncer) (p : ContextPath) (now : Int)
    (rest : List (ContextPath × Int)) :
    d.judged ((p, now) :: rest) =
      ((p, now), (d.decide p now).2) :: (d.decide p now).1.judged rest := rfl

theorem passed_cons (d : Debouncer) (p : ContextPath) (now : Int)
    (rest : List (ContextPath × Int)) (context : ContextPath) :
    d.passed ((p, now) :: rest) context =
      (if p = context ∧ (d.decide p now).2 = true then [now] else []) ++
        (d.decide p now).1.passed rest context := by
  unfold passed
  rw [judged_cons]
  by_cases hpass : p = context ∧ (d.decide p now).2 = true
  · rw [if_pos hpass, List.filter_cons_of_pos (by simpa using hpass)]
    rfl
  · rw [if_neg hpass, List.filter_cons_of_neg (by simpa using hpass)]
    rfl

/-! ### One context within a run -/

/-- The debouncers have the same quiet period and the same time for the context. -/
def AgreeOn (d d' : Debouncer) (context : ContextPath) : Prop :=
  d.quiet = d'.quiet ∧ d.last.get? context = d'.last.get? context

theorem AgreeOn.decide_eq (h : AgreeOn d d' context) (now : Int) :
    (d.decide context now).2 = (d'.decide context now).2 := by
  rw [Bool.eq_iff_iff, ← not_iff_not, Bool.not_eq_true, Bool.not_eq_true, decide_eq_false_iff,
    decide_eq_false_iff, h.1, h.2]

theorem AgreeOn.decide_own (h : AgreeOn d d' context) (now : Int) :
    AgreeOn (d.decide context now).1 (d'.decide context now).1 context := by
  unfold AgreeOn
  rw [quiet_decide, quiet_decide, get?_decide, get?_decide, h.decide_eq now, h.1, h.2]
  exact ⟨rfl, rfl⟩

/-- A change of another context makes no difference. -/
theorem AgreeOn.decide_other (h : AgreeOn d d' context) {p : ContextPath} (hp : p ≠ context)
    (now : Int) : AgreeOn (d.decide p now).1 d' context := by
  unfold AgreeOn
  rw [quiet_decide, get?_decide, if_neg fun hown => hp hown.1]
  exact h

/-- The changes of a context are judged as if there were no others. -/
theorem judged_filter (h : AgreeOn d d' context) (changes : List (ContextPath × Int)) :
    (d.judged changes).filter (·.1.1 = context) =
      d'.judged (changes.filter (·.1 = context)) := by
  induction changes generalizing d d' with
  | nil => rfl
  | cons change rest ih =>
    obtain ⟨p, now⟩ := change
    rw [judged_cons]
    by_cases hp : p = context
    · subst hp
      rw [List.filter_cons_of_pos (by simp), List.filter_cons_of_pos (by simp), judged_cons,
        ih (h.decide_own now), h.decide_eq now]
    · rw [List.filter_cons_of_neg (by simpa using hp), List.filter_cons_of_neg (by simpa using hp),
        ih (h.decide_other hp now)]

/-! ### The time that is kept -/

/-- The time kept for a context is that of its last change let through, or the one there was. -/
theorem get?_after (d : Debouncer) (changes : List (ContextPath × Int)) (context : ContextPath) :
    (d.after changes).last.get? context =
      ((d.passed changes context).getLast?).or (d.last.get? context) := by
  induction changes generalizing d with
  | nil => rfl
  | cons change rest ih =>
    obtain ⟨p, now⟩ := change
    have hstep : (d.after ((p, now) :: rest)).last.get? context =
        ((d.decide p now).1.after rest).last.get? context := rfl
    rw [hstep, ih, get?_decide, passed_cons, List.getLast?_append, Option.or_assoc]
    split <;> rfl

theorem get?_after_ofQuiet (quiet : Nat) (changes : List (ContextPath × Int))
    (context : ContextPath) :
    ((ofQuiet quiet).after changes).last.get? context =
      ((ofQuiet quiet).passed changes context).getLast? := by
  rw [get?_after]
  exact Option.or_none

/-- A context of which no change was seen has none that was let through. -/
theorem passed_eq_nil (d : Debouncer) {changes : List (ContextPath × Int)}
    (h : ∀ change ∈ changes, change.1 ≠ context) : d.passed changes context = [] := by
  unfold passed
  rw [List.map_eq_nil_iff, List.filter_eq_nil_iff]
  intro j hj
  have hne := h j.1 (List.of_mem_zip hj).1
  simp [hne]

/-- The quiet period goes by from the first time to the second. Where there is none, the second may
    come at any time. -/
def Apart (quiet : Nat) (e e' : Int) : Prop :=
  quiet = 0 ∨ e + quiet ≤ e'

theorem apart_of_decide {e : Int} (hlast : d.last.get? context = some e)
    (hpass : (d.decide context now).2 = true) : Apart d.quiet e now := by
  have hlate : ¬ max (now - e) 0 < d.quiet := by
    intro hsoon
    rw [decide_eq_false_iff.2 ⟨e, hlast, hsoon⟩] at hpass
    cases hpass
  unfold Apart
  omega

/-- The time kept for a context and those of its changes let through from then on are apart. -/
theorem isChain_passed (d : Debouncer) (changes : List (ContextPath × Int))
    (context : ContextPath) :
    List.IsChain (Apart d.quiet) ((d.last.get? context).toList ++ d.passed changes context) := by
  -- what is let through takes the place of the time kept, which the rest follows on
  induction changes generalizing d with
  | nil =>
    have hnone : d.passed [] context = [] := rfl
    rw [hnone, List.append_nil]
    cases d.last.get? context with
    | none => exact .nil
    | some e => exact .singleton e
  | cons change rest ih =>
    obtain ⟨p, now⟩ := change
    have hrest := ih (d.decide p now).1
    rw [quiet_decide, get?_decide] at hrest
    rw [passed_cons]
    by_cases hpass : p = context ∧ (d.decide p now).2 = true
    · rw [if_pos hpass] at hrest ⊢
      obtain ⟨rfl, hpass⟩ := hpass
      cases hlast : d.last.get? p with
      | none => exact hrest
      | some e => exact List.isChain_cons_cons.2 ⟨apart_of_decide hlast hpass, hrest⟩
    · rw [if_neg hpass] at hrest ⊢
      exact hrest

/-! ### Every decision -/

/-- Without a quiet period nothing is held back. -/
theorem decisions_of_quiet_eq_zero (hquiet : d.quiet = 0) (changes : List (ContextPath × Int)) :
    d.decisions changes = List.replicate changes.length true := by
  induction changes generalizing d with
  | nil => rfl
  | cons change rest ih =>
    obtain ⟨p, now⟩ := change
    have hpass : (d.decide p now).2 = true := by
      rw [← Bool.not_eq_false, decide_eq_false_iff, hquiet]
      rintro ⟨e, -, hsoon⟩
      omega
    rw [decisions_cons, hpass, ih ((quiet_decide d p now).trans hquiet), List.length_cons,
      List.replicate_succ]

/-- In any run of changes, at times in any order, each change is decided on, and those of a context
    as if there were no others. The first change of a context is let through. A change is held
    back exactly if less than the quiet period has gone by since the last one of its context that
    was let through, where time that runs backwards does not count; so it is seen before that one,
    or less than the quiet period after it. From one change of a context let through to the next,
    the quiet period goes by. Without a quiet period everything is let through. -/
theorem decisions_exact (quiet : Nat) (changes : List (ContextPath × Int)) (context : ContextPath) :
    ((ofQuiet quiet).decisions changes).length = changes.length ∧
      ((ofQuiet quiet).judged changes).filter (·.1.1 = context) =
        (ofQuiet quiet).judged (changes.filter (·.1 = context)) ∧
      (∀ before now rest, changes = before ++ (context, now) :: rest →
        ∃ passes, ((ofQuiet quiet).decisions changes)[before.length]? = some passes ∧
          ((∀ change ∈ before, change.1 ≠ context) → passes = true) ∧
          (passes = false ↔ ∃ e, ((ofQuiet quiet).passed before context).getLast? = some e ∧
            max (now - e) 0 < quiet) ∧
          (passes = false → ∃ e, ((ofQuiet quiet).passed before context).getLast? = some e ∧
            (now < e ∨ e ≤ now ∧ now - e < quiet))) ∧
      List.IsChain (Apart quiet) ((ofQuiet quiet).passed changes context) ∧
      (ofQuiet 0).decisions changes = List.replicate changes.length true := by
  refine ⟨length_decisions _ changes, judged_filter ⟨rfl, rfl⟩ changes, ?_,
    isChain_passed (ofQuiet quiet) changes context, decisions_of_quiet_eq_zero rfl changes⟩
  rintro before now rest rfl
  have hheld : (((ofQuiet quiet).after before).decide context now).2 = false ↔
      ∃ e, ((ofQuiet quiet).passed before context).getLast? = some e ∧ max (now - e) 0 < quiet := by
    rw [decide_eq_false_iff, get?_after_ofQuiet, quiet_after]
    rfl
  refine ⟨_, getElem?_decisions (ofQuiet quiet) before rest context now, ?_, hheld, ?_⟩
  · intro hfirst
    rw [← Bool.not_eq_false, hheld, passed_eq_nil (ofQuiet quiet) hfirst]
    rintro ⟨e, hlast, -⟩
    cases hlast
  · intro hfalse
    obtain ⟨e, hlast, hsoon⟩ := hheld.1 hfalse
    exact ⟨e, hlast, by omega⟩

/-- The context path `/é`. -/
def pathE : ContextPath := ⟨"/é", by decide⟩

/-- Two contexts whose changes are mixed. The clock is set back once. -/
def mixedChanges : List (ContextPath × Int) :=
  [(.root, 1000), (pathE, 1200), (.root, 1499), (.root, 300), (pathE, 1600), (.root, 1500),
    (pathE, 1701)]

/-- A change at an earlier time is held back, and the burst still ends when the quiet period has
    gone by since its first change. -/
theorem decisions_exact_mixed :
    (ofQuiet 500).decisions mixedChanges = [true, true, false, false, false, true, true] ∧
      (∃ passes, ((ofQuiet 500).decisions mixedChanges)[5]? = some passes ∧
        (passes = false ↔ ∃ e, ((ofQuiet 500).passed (mixedChanges.take 5) .root).getLast? = some e ∧
          max (1500 - e) 0 < 500)) ∧
      List.IsChain (Apart 500) ((ofQuiet 500).passed mixedChanges .root) := by
  obtain ⟨-, -, hdecided, hchain, -⟩ := decisions_exact 500 mixedChanges .root
  obtain ⟨passes, hpasses, -, hheld, -⟩ :=
    hdecided (mixedChanges.take 5) 1500 [(pathE, 1701)] rfl
  exact ⟨by decide +kernel, ⟨passes, hpasses, hheld⟩, hchain⟩

end Hosting.Debouncer
