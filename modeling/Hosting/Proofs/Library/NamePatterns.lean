import Hosting.Context.Preparation
import Hosting.Proofs.Text.Trimming
import Mathlib.Data.List.Basic

/-! # Pattern sets and the lists they are made from

    A pattern set is built up by calls that add one pattern or several. It does not keep the
    patterns as they were given: blanks around them and signs in front are taken off, and what is
    there already is not added again. Which names it admits can still be read off the list of
    all patterns that were given, and neither their order nor repetitions count.

    - `Includes`, `Excludes`: what the given list says about a name.
    - `inclusion?`, `exclusion?`: the entry that one pattern makes.
    - `addAll_eq`: the entries of a set, those of each sign by themselves.
    - `means_its_sources`: the set says what the list says, and its own patterns make it again.
    - `Context.visibility_iff`: the rules of the host and those of an application, put together.
-/

namespace Hosting

open Text

namespace PatternSet

/-! ### What a list of patterns says -/

/-- A pattern without the blanks around it. -/
def trimmed (pattern : String) : List Char :=
  strip isBlank pattern.toList

/-- The text stands for the name: for what begins with it if it ends in a dot, for itself if
    not. -/
def Matches (x : List Char) (name : String) : Prop :=
  if x.getLast? = some '.' then x <+: name.toList else x = name.toList

/-- A pattern of the list, one without a minus sign, matches the name. -/
def Includes (patterns : List String) (name : String) : Prop :=
  ∃ p ∈ patterns, trimmed p ≠ [] ∧ (trimmed p).head? ≠ some '-' ∧ Matches (trimmed p) name

/-- What a pattern of the list has behind a minus sign matches the name. -/
def Excludes (patterns : List String) (name : String) : Prop :=
  ∃ p ∈ patterns, ∃ x, x ≠ [] ∧ trimmed p = '-' :: x ∧ Matches x name

theorem covers_iff {pattern name : String} :
    covers pattern name = true ↔ Matches pattern.toList name := by
  unfold covers Matches
  by_cases hdot : pattern.toList.getLast? = some '.'
  · rw [if_pos hdot, if_pos hdot]
    exact List.isPrefixOf_iff_prefix
  · rw [if_neg hdot, if_neg hdot, beq_iff_eq, String.toList_inj]
    exact eq_comm

/-! ### The entries of patterns -/

/-- The entry that a pattern makes among the inclusions, if it makes one. -/
def inclusion? (pattern : String) : Option String :=
  if trimmed pattern = [] ∨ (trimmed pattern).head? = some '-' then none
  else some (.ofList (trimmed pattern))

/-- The entry that a pattern makes among the exclusions, if it makes one. -/
def exclusion? (pattern : String) : Option String :=
  if (trimmed pattern).head? = some '-' ∧ (trimmed pattern).tail ≠ [] then
    some (.ofList (trimmed pattern).tail)
  else none

theorem inclusion?_eq_some_iff {pattern entry : String} :
    inclusion? pattern = some entry ↔
      trimmed pattern = entry.toList ∧ entry.toList ≠ [] ∧ entry.toList.head? ≠ some '-' := by
  unfold inclusion?
  constructor
  · intro h
    by_cases hnone : trimmed pattern = [] ∨ (trimmed pattern).head? = some '-'
    · rw [if_pos hnone] at h
      cases h
    · rw [if_neg hnone] at h
      obtain rfl := Option.some.inj h
      rw [not_or] at hnone
      rw [String.toList_ofList]
      exact ⟨rfl, hnone⟩
  · intro ⟨htext, hne, hhead⟩
    rw [htext, if_neg (not_or.2 ⟨hne, hhead⟩), String.ofList_toList]

theorem exclusion?_eq_some_iff {pattern entry : String} :
    exclusion? pattern = some entry ↔
      entry.toList ≠ [] ∧ trimmed pattern = '-' :: entry.toList := by
  unfold exclusion?
  constructor
  · intro h
    by_cases hsome : (trimmed pattern).head? = some '-' ∧ (trimmed pattern).tail ≠ []
    · rw [if_pos hsome] at h
      obtain rfl := Option.some.inj h
      rw [String.toList_ofList]
      obtain ⟨rest, hrest⟩ := List.head?_eq_some_iff.1 hsome.1
      exact ⟨hsome.2, by rw [hrest]; rfl⟩
    · rw [if_neg hsome] at h
      cases h
  · intro ⟨hne, htext⟩
    rw [htext, if_pos ⟨rfl, hne⟩, List.tail_cons, String.ofList_toList]

/-- A pattern makes an entry of one sign at most. -/
theorem add_eq (s : PatternSet) (pattern : String) :
    s.add pattern = ⟨(inclusion? pattern).toList.foldl appendNew s.includes,
      (exclusion? pattern).toList.foldl appendNew s.excludes⟩ := by
  unfold add inclusion? exclusion? trimmed
  split
  · next hnil =>
    rw [hnil]
    rfl
  · next hminus =>
    rw [hminus]
    rfl
  · next excluded hne hminus =>
    have hsome : excluded ≠ [] := hne
    rw [hminus, if_pos (.inr rfl), List.tail_cons, if_pos ⟨rfl, hsome⟩]
    rfl
  · next hnil hone hminus =>
    have hhead : (strip isBlank pattern.toList).head? ≠ some '-' := by
      intro hhead
      obtain ⟨rest, hrest⟩ := List.head?_eq_some_iff.1 hhead
      exact hminus rest hrest
    rw [if_neg (not_or.2 ⟨hnil, hhead⟩), if_neg (fun h => hhead h.1)]
    rfl

theorem addAll_append (s : PatternSet) (xs ys : List String) :
    s.addAll (xs ++ ys) = (s.addAll xs).addAll ys :=
  List.foldl_append

theorem addAll_eq (s : PatternSet) (patterns : List String) :
    s.addAll patterns = ⟨(patterns.filterMap inclusion?).foldl appendNew s.includes,
      (patterns.filterMap exclusion?).foldl appendNew s.excludes⟩ := by
  induction patterns generalizing s with
  | nil => rfl
  | cons p rest ih =>
    have hone (f : String → Option String) :
        (p :: rest).filterMap f = (f p).toList ++ rest.filterMap f := by
      rw [List.filterMap_cons]
      cases f p <;> rfl
    have hstep : s.addAll (p :: rest) = (s.add p).addAll rest := rfl
    rw [hstep, ih, add_eq, hone, hone, List.foldl_append, List.foldl_append]

/-! ### Lists without repetitions -/

theorem mem_foldl_appendNew {xs ys : List String} {x : String} :
    x ∈ xs.foldl appendNew ys ↔ x ∈ ys ∨ x ∈ xs := by
  induction xs generalizing ys with
  | nil => simp
  | cons y rest ih =>
    have hone : x ∈ appendNew ys y ↔ x ∈ ys ∨ x = y := by
      unfold appendNew
      by_cases hy : ys.contains y = true
      · rw [if_pos hy]
        have hmem : y ∈ ys := List.contains_iff_mem.1 hy
        grind
      · rw [if_neg hy, List.mem_append, List.mem_singleton]
    rw [List.foldl_cons, ih, hone, List.mem_cons, or_assoc]

theorem nodup_foldl_appendNew {xs ys : List String} (h : ys.Nodup) :
    (xs.foldl appendNew ys).Nodup := by
  induction xs generalizing ys with
  | nil => exact h
  | cons y rest ih =>
    apply ih
    unfold appendNew
    by_cases hy : ys.contains y = true
    · rw [if_pos hy]
      exact h
    · rw [if_neg hy]
      have hnew : y ∉ ys := fun hmem => hy (List.contains_iff_mem.2 hmem)
      exact List.nodup_append.2 ⟨h, by simp, by grind⟩

/-- Where nothing is repeated, everything is added. -/
theorem foldl_appendNew_of_nodup {xs ys : List String} (h : (ys ++ xs).Nodup) :
    xs.foldl appendNew ys = ys ++ xs := by
  induction xs generalizing ys with
  | nil => exact (List.append_nil ys).symm
  | cons y rest ih =>
    have hnew : ¬ ys.contains y = true := by
      intro hy
      exact (List.nodup_append.1 h).2.2 y (List.contains_iff_mem.1 hy) y List.mem_cons_self rfl
    have hone : appendNew ys y = ys ++ [y] := if_neg hnew
    rw [List.append_cons] at h
    rw [List.foldl_cons, hone, ih h, List.append_assoc, List.singleton_append]

/-! ### The set of a list -/

variable {patterns : List String} {entry name : String}

theorem ofPatterns_eq (patterns : List String) :
    ofPatterns patterns = ⟨(patterns.filterMap inclusion?).foldl appendNew [],
      (patterns.filterMap exclusion?).foldl appendNew []⟩ :=
  addAll_eq empty patterns

theorem mem_includes_iff :
    entry ∈ (ofPatterns patterns).includes ↔ ∃ p ∈ patterns, inclusion? p = some entry := by
  rw [ofPatterns_eq]
  simp [mem_foldl_appendNew]

theorem mem_excludes_iff :
    entry ∈ (ofPatterns patterns).excludes ↔ ∃ p ∈ patterns, exclusion? p = some entry := by
  rw [ofPatterns_eq]
  simp [mem_foldl_appendNew]

theorem nodup_includes (patterns : List String) : (ofPatterns patterns).includes.Nodup := by
  rw [ofPatterns_eq]
  exact nodup_foldl_appendNew .nil

theorem nodup_excludes (patterns : List String) : (ofPatterns patterns).excludes.Nodup := by
  rw [ofPatterns_eq]
  exact nodup_foldl_appendNew .nil

theorem any_includes_iff :
    (ofPatterns patterns).includes.any (covers · name) = true ↔ Includes patterns name := by
  rw [List.any_eq_true]
  constructor
  · intro ⟨entry, hmem, hcovers⟩
    obtain ⟨p, hp, hentry⟩ := mem_includes_iff.1 hmem
    obtain ⟨htext, hne, hhead⟩ := inclusion?_eq_some_iff.1 hentry
    rw [covers_iff] at hcovers
    rw [← htext] at hne hhead hcovers
    exact ⟨p, hp, hne, hhead, hcovers⟩
  · intro ⟨p, hp, hne, hhead, hmatches⟩
    refine ⟨.ofList (trimmed p), ?_, ?_⟩
    · apply mem_includes_iff.2
      refine ⟨p, hp, inclusion?_eq_some_iff.2 ?_⟩
      rw [String.toList_ofList]
      exact ⟨rfl, hne, hhead⟩
    · rw [covers_iff, String.toList_ofList]
      exact hmatches

theorem any_excludes_iff :
    (ofPatterns patterns).excludes.any (covers · name) = true ↔ Excludes patterns name := by
  rw [List.any_eq_true]
  constructor
  · intro ⟨entry, hmem, hcovers⟩
    obtain ⟨p, hp, hentry⟩ := mem_excludes_iff.1 hmem
    obtain ⟨hne, htext⟩ := exclusion?_eq_some_iff.1 hentry
    exact ⟨p, hp, entry.toList, hne, htext, covers_iff.1 hcovers⟩
  · intro ⟨p, hp, x, hne, htext, hmatches⟩
    refine ⟨.ofList x, ?_, ?_⟩
    · apply mem_excludes_iff.2
      refine ⟨p, hp, exclusion?_eq_some_iff.2 ?_⟩
      rw [String.toList_ofList]
      exact ⟨hne, htext⟩
    · rw [covers_iff, String.toList_ofList]
      exact hmatches

/-- The set admits what its list includes and does not exclude. -/
theorem admits_ofPatterns_iff :
    (ofPatterns patterns).admits name = true ↔
      Includes patterns name ∧ ¬ Excludes patterns name := by
  unfold admits
  rw [Bool.and_eq_true, any_includes_iff, Bool.not_eq_true', Bool.eq_false_iff, Ne,
    any_excludes_iff, and_comm]

/-- What a list says does not depend on the order of its patterns, nor on repetitions. -/
theorem admits_congr {other : List String} (h : ∀ p, p ∈ other ↔ p ∈ patterns) (name : String) :
    (ofPatterns other).admits name = (ofPatterns patterns).admits name := by
  have hincludes : Includes other name ↔ Includes patterns name := by
    unfold Includes
    simp only [h]
  have hexcludes : Excludes other name ↔ Excludes patterns name := by
    unfold Excludes
    simp only [h]
  rw [Bool.eq_iff_iff, admits_ofPatterns_iff, admits_ofPatterns_iff, hincludes, hexcludes]

/-! ### The patterns of a set -/

/-- An entry of the inclusions is a pattern that makes this entry. -/
theorem entries_of_included (h : entry ∈ (ofPatterns patterns).includes) :
    inclusion? entry = some entry ∧ exclusion? entry = none := by
  obtain ⟨p, -, hentry⟩ := mem_includes_iff.1 h
  obtain ⟨htext, hne, hhead⟩ := inclusion?_eq_some_iff.1 hentry
  have hsame : trimmed entry = entry.toList := by
    unfold trimmed at htext ⊢
    rw [← htext, strip_strip]
  refine ⟨inclusion?_eq_some_iff.2 ⟨hsame, hne, hhead⟩, ?_⟩
  unfold exclusion?
  rw [hsame, if_neg (fun hminus => hhead hminus.1)]

/-- So is an entry of the exclusions, with its sign. What follows the sign may begin with a blank,
    which is not trimmed then. -/
theorem entries_of_excluded (h : entry ∈ (ofPatterns patterns).excludes) :
    inclusion? ("-" ++ entry) = none ∧ exclusion? ("-" ++ entry) = some entry := by
  obtain ⟨p, -, hentry⟩ := mem_excludes_iff.1 h
  obtain ⟨hne, htext⟩ := exclusion?_eq_some_iff.1 hentry
  have hsigned : ("-" ++ entry).toList = '-' :: entry.toList := by
    rw [String.toList_append]
    rfl
  have hsame : trimmed ("-" ++ entry) = '-' :: entry.toList := by
    unfold trimmed at htext ⊢
    rw [hsigned, ← htext, strip_strip]
  refine ⟨?_, exclusion?_eq_some_iff.2 ⟨hne, hsame⟩⟩
  unfold inclusion?
  rw [hsame, if_pos (.inr rfl)]

/-- The patterns of a set make the entries that it has, in their order. -/
theorem filterMap_patterns (patterns : List String) :
    (ofPatterns patterns).patterns.filterMap inclusion? = (ofPatterns patterns).includes ∧
      (ofPatterns patterns).patterns.filterMap exclusion? = (ofPatterns patterns).excludes := by
  have hall {f : String → Option String} {entries : List String}
      (h : ∀ e ∈ entries, f e = some e) : entries.filterMap f = entries :=
    (List.filterMap_congr h).trans List.filterMap_some
  unfold PatternSet.patterns
  rw [List.filterMap_append, List.filterMap_append, List.filterMap_map, List.filterMap_map]
  constructor
  · have hsigned : (ofPatterns patterns).excludes.filterMap (inclusion? ∘ ("-" ++ ·)) = [] := by
      apply List.filterMap_eq_nil_iff.2
      intro e he
      exact (entries_of_excluded he).1
    rw [hsigned, hall fun e he => (entries_of_included he).1, List.nil_append]
  · have hsigned : (ofPatterns patterns).excludes.filterMap (exclusion? ∘ ("-" ++ ·)) =
        (ofPatterns patterns).excludes := by
      apply hall
      intro e he
      exact (entries_of_excluded he).2
    have hplain : (ofPatterns patterns).includes.filterMap exclusion? = [] := by
      apply List.filterMap_eq_nil_iff.2
      intro e he
      exact (entries_of_included he).2
    rw [hsigned, hplain, List.append_nil]

theorem ofPatterns_patterns (patterns : List String) :
    ofPatterns (ofPatterns patterns).patterns = ofPatterns patterns := by
  have hadd {entries : List String} (h : entries.Nodup) :
      entries.foldl appendNew [] = entries := by
    have hnodup : ([] ++ entries).Nodup := h
    exact foldl_appendNew_of_nodup hnodup
  obtain ⟨hincludes, hexcludes⟩ := filterMap_patterns patterns
  rw [ofPatterns_eq (ofPatterns patterns).patterns, hincludes, hexcludes,
    hadd (nodup_includes patterns), hadd (nodup_excludes patterns)]

theorem nodup_patterns (patterns : List String) : (ofPatterns patterns).patterns.Nodup := by
  unfold PatternSet.patterns
  refine List.nodup_append.2 ⟨?_, nodup_includes patterns, ?_⟩
  · apply List.pairwise_map.2
    apply (nodup_excludes patterns).imp
    intro x y hne heq
    exact hne ((String.append_right_inj _).1 heq)
  · -- a pattern with a sign makes no inclusion, but the other one does
    intro signed hsigned plain hplain heq
    obtain ⟨entry, hentry, rfl⟩ := List.mem_map.1 hsigned
    have hnone := (entries_of_excluded hentry).1
    rw [heq, (entries_of_included hplain).1] at hnone
    cases hnone

/-! ### Histories of additions -/

/-- A call that adds to a pattern set. -/
inductive Addition where
  | add (pattern : String)
  | extend (patterns : List String)
deriving DecidableEq, Repr

/-- The patterns that a call brings. -/
def Addition.brought : Addition → List String
  | .add pattern => [pattern]
  | .extend patterns => patterns

/-- The set after a call. -/
def after (s : PatternSet) : Addition → PatternSet
  | .add pattern => s.add pattern
  | .extend patterns => s.addAll patterns

/-- The set that is made of patterns, after calls that add to it. -/
def built (initial : List String) (calls : List Addition) : PatternSet :=
  calls.foldl after (ofPatterns initial)

/-- All patterns that were given, in order. -/
def sources (initial : List String) (calls : List Addition) : List String :=
  initial ++ calls.flatMap Addition.brought

/-- It does not matter which calls bring the patterns. -/
theorem built_eq (initial : List String) (calls : List Addition) :
    built initial calls = ofPatterns (sources initial calls) := by
  have hall (s : PatternSet) : calls.foldl after s = s.addAll (calls.flatMap Addition.brought) := by
    induction calls generalizing s with
    | nil => rfl
    | cons call rest ih =>
      have hone : s.after call = s.addAll call.brought := by
        cases call <;> rfl
      rw [List.foldl_cons, ih, hone, List.flatMap_cons, addAll_append]
  unfold built sources ofPatterns
  rw [hall, addAll_append]

/-- Whatever calls have built a set, it admits the names that the list of all given patterns
    includes and does not exclude, so order and repetitions make no difference. Its own patterns
    make exactly this set again, and nothing in it is there twice. -/
theorem means_its_sources (initial : List String) (calls : List Addition) :
    (∀ name, (built initial calls).admits name = true ↔
        Includes (sources initial calls) name ∧ ¬ Excludes (sources initial calls) name) ∧
      (∀ initial' calls', (∀ p, p ∈ sources initial' calls' ↔ p ∈ sources initial calls) →
        ∀ name, (built initial' calls').admits name = (built initial calls).admits name) ∧
      ofPatterns (built initial calls).patterns = built initial calls ∧
      (built initial calls).includes.Nodup ∧ (built initial calls).excludes.Nodup ∧
      (built initial calls).patterns.Nodup := by
  rw [built_eq]
  refine ⟨fun name => admits_ofPatterns_iff, ?_, ofPatterns_patterns _, nodup_includes _,
    nodup_excludes _, nodup_patterns _⟩
  intro initial' calls' hsame name
  rw [built_eq]
  exact admits_congr hsame name

/-- Rules with blanks in and around them, signs with nothing behind them, and repetitions. -/
def mixedCalls : List Addition :=
  [.add " a-b. ", .extend ["a-b.", "-a-b.c"], .add "- std.", .extend ["-", "-"]]

/-- The same rules in another order, some of them given at the start. -/
def regroupedCalls : List Addition :=
  [.extend ["-a-b.c", "-", " a-b. "]]

theorem means_its_sources_mixed :
    (∀ p, p ∈ sources ["- std.", "a-b."] regroupedCalls ↔ p ∈ sources [] mixedCalls) ∧
      (built [] mixedCalls).patterns = ["-a-b.c", "- std.", "a-b."] ∧
      (built ["- std.", "a-b."] regroupedCalls).admits "a-b.d" = true ∧
      (built ["- std.", "a-b."] regroupedCalls).admits "a-b.c" = false := by
  have hsame (p : String) :
      p ∈ sources ["- std.", "a-b."] regroupedCalls ↔ p ∈ sources [] mixedCalls := by
    simp only [sources, mixedCalls, regroupedCalls, List.flatMap_cons, List.flatMap_nil,
      Addition.brought, List.mem_append, List.mem_cons, List.not_mem_nil, or_false, false_or]
    grind
  obtain ⟨-, hcongr, -⟩ := means_its_sources [] mixedCalls
  refine ⟨hsame, by decide +kernel, ?_, ?_⟩
  · rw [hcongr _ _ hsame]
    decide +kernel
  · rw [hcongr _ _ hsame]
    decide +kernel

end PatternSet

/-! ### The rules of a prepared application -/

/-- The host's patterns and those of the application come to one list, for the names that are taken
    from the host as for those that are hidden. -/
theorem Context.visibility_iff (c : Context) (settings : Settings) (name : String) :
    ((c.visibility settings).isSystem name = true ↔
        PatternSet.Includes (settings.systemNames ++ c.systemNames) name ∧
          ¬ PatternSet.Excludes (settings.systemNames ++ c.systemNames) name) ∧
      ((c.visibility settings).isHidden name = true ↔
        PatternSet.Includes (settings.serverNames ++ c.serverNames) name ∧
          ¬ PatternSet.Excludes (settings.serverNames ++ c.serverNames) name) := by
  unfold Visibility.isSystem Visibility.isHidden visibility PatternSet.ofPatterns
  simp only [← PatternSet.addAll_append]
  exact ⟨PatternSet.admits_ofPatterns_iff, PatternSet.admits_ofPatterns_iff⟩

end Hosting
