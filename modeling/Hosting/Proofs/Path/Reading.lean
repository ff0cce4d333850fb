import Hosting.Proofs.Path.Joined
import Mathlib.Logic.Relation

/-! # Paths read from left to right

    The segments of a path are names, steps up (`..`) and segments that lead nowhere (empty
    ones and `.`). What the path comes to is what is left when every step up has taken back
    the name before it, and there is no such path if a step up finds no name.

    - `Climbs`: a step up comes when no name before it is left, said by counting.
    - `Shortens`: one segment that leads nowhere is left out, or a name with the step up
      right behind it.
    - `normalize_append`: what comes behind a path may as well come behind its normal
      spelling.
    - `normalize_left_to_right`: the normal spelling of every path.
-/

namespace Hosting.VirtualPath

open Text

/-! ### Counting names and steps up -/

/-- How many of the segments are names. -/
def names (segments : List (List Char)) : Nat :=
  segments.countP fun segment => decide (IsName segment)

/-- How many of the segments are steps up. -/
def ups (segments : List (List Char)) : Nat :=
  segments.count up

@[simp] theorem names_nil : names [] = 0 := rfl

@[simp] theorem ups_nil : ups [] = 0 := rfl

theorem names_cons_of_isName {s : List Char} (hs : IsName s) (rest : List (List Char)) :
    names (s :: rest) = names rest + 1 := by
  simp [names, hs]

theorem names_cons_of_not_isName {s : List Char} (hs : ¬ IsName s) (rest : List (List Char)) :
    names (s :: rest) = names rest := by
  simp [names, hs]

theorem ups_cons_of_ne {s : List Char} (hs : s ≠ up) (rest : List (List Char)) :
    ups (s :: rest) = ups rest := by
  simp [ups, hs]

theorem ups_cons_up (rest : List (List Char)) : ups (up :: rest) = ups rest + 1 := by
  simp [ups]

/-- A segment that leads nowhere is neither counted as a name nor as a step up. -/
theorem counts_cons_of_idle {s : List Char} (hs : s = [] ∨ s = ['.']) (rest : List (List Char)) :
    names (s :: rest) = names rest ∧ ups (s :: rest) = ups rest := by
  have hname : ¬ IsName s := by
    rintro ⟨hne, hhere, -⟩
    rcases hs with rfl | rfl
    · exact hne rfl
    · exact hhere rfl
  have hup : s ≠ up := by
    rcases hs with rfl | rfl <;> decide
  exact ⟨names_cons_of_not_isName hname rest, ups_cons_of_ne hup rest⟩

/-! ### Paths that climb -/

/-- Behind `more` names that are left from before, a step up comes when no name is left. -/
def ClimbsFrom (more : Nat) (segments : List (List Char)) : Prop :=
  ∃ before after, segments = before ++ up :: after ∧ more + names before ≤ ups before

/-- Some `..` comes when no name before it is left to take back. -/
def Climbs (cs : List Char) : Prop :=
  ClimbsFrom 0 (segments cs)

/-- The first segment is the step up that climbs, or the climbing comes later. -/
theorem climbsFrom_cons {more : Nat} {s : List Char} {rest : List (List Char)} :
    ClimbsFrom more (s :: rest) ↔
      (s = up ∧ more = 0) ∨
        ∃ before after, rest = before ++ up :: after ∧
          more + names (s :: before) ≤ ups (s :: before) := by
  unfold ClimbsFrom
  constructor
  · rintro ⟨before, after, hsplit, hle⟩
    cases before with
    | nil =>
      left
      simp only [names_nil, ups_nil] at hle
      exact ⟨(List.cons.inj hsplit).1, by omega⟩
    | cons head before =>
      right
      obtain ⟨rfl, hrest⟩ := List.cons.inj hsplit
      exact ⟨before, after, hrest, hle⟩
  · rintro (⟨rfl, rfl⟩ | ⟨before, after, rfl, hle⟩)
    · exact ⟨[], rest, rfl, Nat.le_refl 0⟩
    · exact ⟨s :: before, after, rfl, hle⟩

theorem climbsFrom_cons_of_idle {more : Nat} {s : List Char} (hs : s = [] ∨ s = ['.'])
    {rest : List (List Char)} : ClimbsFrom more (s :: rest) ↔ ClimbsFrom more rest := by
  have hup : s ≠ up := by
    rcases hs with rfl | rfl <;> decide
  rw [climbsFrom_cons]
  simp only [hup, false_and, false_or, counts_cons_of_idle hs]
  rfl

theorem climbsFrom_zero_cons_up {rest : List (List Char)} : ClimbsFrom 0 (up :: rest) :=
  climbsFrom_cons.2 (.inl ⟨rfl, rfl⟩)

/-- A step up takes one of the names that are left. -/
theorem climbsFrom_succ_cons_up {more : Nat} {rest : List (List Char)} :
    ClimbsFrom (more + 1) (up :: rest) ↔ ClimbsFrom more rest := by
  rw [climbsFrom_cons]
  simp only [Nat.add_one_ne_zero, and_false, false_or, names_cons_of_not_isName not_isName_up,
    ups_cons_up]
  unfold ClimbsFrom
  refine exists_congr fun before => exists_congr fun after => and_congr_right fun _ => ?_
  omega

/-- A name is one more that is left. -/
theorem climbsFrom_cons_of_isName {more : Nat} {s : List Char} (hs : IsName s)
    {rest : List (List Char)} : ClimbsFrom more (s :: rest) ↔ ClimbsFrom (more + 1) rest := by
  rw [climbsFrom_cons]
  simp only [hs.2.2, false_and, false_or, names_cons_of_isName hs, ups_cons_of_ne hs.2.2]
  unfold ClimbsFrom
  refine exists_congr fun before => exists_congr fun after => and_congr_right fun _ => ?_
  omega

/-- Reading stops exactly where the segments climb above those that are kept. -/
theorem plainFrom_eq_none_iff (kept rest : List (List Char)) :
    plainFrom kept rest = none ↔ ClimbsFrom kept.length rest := by
  -- the names kept are those that are left, and each step keeps it so
  induction rest generalizing kept with
  | nil =>
    simp [plainFrom, ClimbsFrom]
  | cons s rest ih =>
    rcases segment_cases s with hidle | rfl | hname
    · rw [plainFrom_cons_of_idle hidle, ih, climbsFrom_cons_of_idle hidle]
    · cases kept with
      | nil => exact iff_of_true (plainFrom_nil_cons_up rest) climbsFrom_zero_cons_up
      | cons top above =>
        rw [plainFrom_cons_cons_up, ih, List.length_cons, climbsFrom_succ_cons_up]
    · rw [plainFrom_cons_of_isName hname, ih, climbsFrom_cons_of_isName hname, List.length_cons]

theorem plainSegments_eq_none_iff (cs : List Char) : plainSegments cs = none ↔ Climbs cs :=
  plainFrom_eq_none_iff [] (segments cs)

/-! ### What is left -/

/-- A segment that leads nowhere is left out, or a name with the step up right behind it. -/
inductive Shortens : List (List Char) → List (List Char) → Prop where
  /-- An empty segment or a `.`. -/
  | idle (before after : List (List Char)) (s : List Char) : s = [] ∨ s = ['.'] →
      Shortens (before ++ s :: after) (before ++ after)
  /-- A name and a `..`. -/
  | back (before after : List (List Char)) (s : List Char) : IsName s →
      Shortens (before ++ s :: up :: after) (before ++ after)

open Relation in
/-- What is kept is what shortening leaves. -/
theorem shortens_of_plainFrom {kept rest plain : List (List Char)} (hkept : ∀ s ∈ kept, IsName s)
    (h : plainFrom kept rest = some plain) :
    ReflTransGen Shortens (kept.reverse ++ rest) plain := by
  -- each step that is no name shortens what is kept and what is left to read, taken together
  induction rest generalizing kept with
  | nil =>
    simp only [plainFrom, Option.some.injEq] at h
    rw [List.append_nil, h]
  | cons s rest ih =>
    rcases segment_cases s with hidle | rfl | hname
    · rw [plainFrom_cons_of_idle hidle] at h
      exact .head (.idle kept.reverse rest s hidle) (ih hkept h)
    · cases kept with
      | nil =>
        rw [plainFrom_nil_cons_up] at h
        cases h
      | cons top above =>
        rw [plainFrom_cons_cons_up] at h
        have hrest := ih (fun t ht => hkept t (List.mem_cons_of_mem _ ht)) h
        rw [List.reverse_cons, List.append_assoc, List.singleton_append]
        exact .head (.back above.reverse rest top (hkept top List.mem_cons_self)) hrest
    · -- the name is kept, and nothing is left out
      rw [plainFrom_cons_of_isName hname] at h
      have hrest := ih (List.forall_mem_cons.2 ⟨hname, hkept⟩) h
      rwa [List.reverse_cons, List.append_assoc, List.singleton_append] at hrest

/-! ### Normal spellings -/

/-- The text is a slash and the segments with slashes between them, and a slash behind them if
    asked for or if there are none. -/
theorem segments_spell {plain : List (List Char)} (h : ∀ s ∈ plain, IsPlain s) (trailing : Bool) :
    segments (spell plain trailing) =
      [] :: (plain ++ if plain = [] ∨ trailing = true then [[]] else []) := by
  have hbody : ∀ front, segments (front ++ plain.flatMap ('/' :: ·)) = segments front ++ plain := by
    intro front
    induction plain generalizing front with
    | nil => simp
    | cons s plain ih =>
      have hs := h s List.mem_cons_self
      rw [List.flatMap_cons, ← List.append_assoc,
        ih (fun t ht => h t (List.mem_cons_of_mem _ ht)), segments_append_slash, hs.segments_eq,
        List.append_assoc, List.singleton_append]
  have hempty : plain.flatMap ('/' :: ·) = [] ↔ plain = [] := by
    cases plain <;> simp
  unfold spell
  simp only [hempty]
  by_cases hmark : plain = [] ∨ trailing = true
  · rw [if_pos hmark, if_pos hmark, segments_append_slash, ← List.nil_append (plain.flatMap _),
      hbody]
    rfl
  · rw [if_neg hmark, if_neg hmark, ← List.nil_append (plain.flatMap _), hbody, List.append_nil]
    rfl

theorem head?_spell (plain : List (List Char)) (trailing : Bool) :
    (spell plain trailing).head? = some '/' := by
  cases plain with
  | nil => simp [spell]
  | cons s plain => cases trailing <;> simp [spell]

theorem getLast?_spell_iff {plain : List (List Char)} (h : ∀ s ∈ plain, IsPlain s)
    (trailing : Bool) :
    (spell plain trailing).getLast? = some '/' ↔ trailing = true ∨ plain = [] := by
  by_cases hnil : plain = []
  · subst hnil
    simp [spell]
  · rw [spell_of_ne_nil hnil]
    cases trailing with
    | true => simp
    | false => simpa [hnil] using getLast?_flatMap_ne h

/-- A normal path is a text that does not end in a slash, or that text with a slash behind it. -/
theorem IsNormal.exists_stem {path : String} (h : IsNormal path) :
    ∃ stem, (path.toList = stem ∨ path.toList = stem ++ ['/']) ∧ stem.getLast? ≠ some '/' := by
  obtain ⟨plain, trailing, hplain, hpath⟩ := h
  obtain ⟨tail, htail, hspell⟩ := spell_eq plain trailing
  refine ⟨plain.flatMap ('/' :: ·), ?_, getLast?_flatMap_ne hplain⟩
  rw [hpath, hspell]
  rcases htail with rfl | rfl
  · left
    rw [List.append_nil]
  · exact .inr rfl

/-- In a normal path no slash follows another one. -/
theorem IsNormal.no_doubled_slash {path : String} (h : IsNormal path) (front rest : List Char) :
    path.toList ≠ front ++ '/' :: '/' :: rest := by
  intro hpath
  obtain ⟨plain, trailing, hplain, hspell⟩ := h
  have hsegments := segments_spell hplain trailing
  rw [← hspell, hpath, segments_append_slash] at hsegments
  have hdouble : segments ('/' :: rest) = [] :: segments rest := rfl
  rw [hdouble] at hsegments
  -- the empty segment between the slashes is neither the first one nor the last one
  obtain ⟨first, more, hfirst⟩ := List.exists_cons_of_ne_nil (pieces_ne_nil (· == '/') front)
  have hfront : segments front = first :: more := hfirst
  rw [hfront, List.cons_append] at hsegments
  have hinner := (List.cons.inj hsegments).2
  have hlast : (more ++ [] :: segments rest).dropLast = more ++ [] :: (segments rest).dropLast := by
    have hrest : segments rest ≠ [] := pieces_ne_nil _ rest
    rw [List.dropLast_append_of_ne_nil (List.cons_ne_nil _ _), List.dropLast_cons_of_ne_nil hrest]
  have hmem : [] ∈ plain := by
    have hmem' : [] ∈ (plain ++ if plain = [] ∨ trailing = true then [[]] else []).dropLast := by
      rw [← hinner, hlast]
      simp
    split at hmem'
    · rwa [List.dropLast_concat] at hmem'
    · rw [List.append_nil] at hmem'
      exact (List.dropLast_sublist plain).subset hmem'
  exact (hplain [] hmem).ne_nil rfl

/-- A normal spelling spells the segments that the path comes to. -/
theorem exists_plain_of_normalize {path normal : String} (hn : normalize path = some normal) :
    ∃ plain, plainSegments path.toList = some plain ∧
      normal.toList = spell plain (path.toList.getLast? == some '/') := by
  obtain ⟨cs, hcs, rfl⟩ := Option.map_eq_some_iff.1 hn
  obtain ⟨plain, hread, rfl⟩ := Option.map_eq_some_iff.1 hcs
  exact ⟨plain, hread, String.toList_ofList⟩

theorem normalize_eq_none_iff {path : String} :
    normalize path = none ↔ plainSegments path.toList = none := by
  unfold normalize normalizeChars
  rw [Option.map_eq_none_iff, Option.map_eq_none_iff]

/-! ### One path behind another -/

theorem plainSegments_slash (front back : List Char) :
    plainSegments (front ++ '/' :: back) =
      (plainSegments front).bind fun plain => plainFrom plain.reverse (segments back) := by
  unfold plainSegments
  rw [segments_append_slash, plainFrom_append]

/-- Behind a slash, only what a path comes to matters. -/
theorem normalizeChars_slash_congr {front front' : List Char}
    (h : plainSegments front = plainSegments front') (back : List Char) :
    normalizeChars (front ++ '/' :: back) = normalizeChars (front' ++ '/' :: back) := by
  have hlast : ∀ cs : List Char, (cs ++ '/' :: back).getLast? = ('/' :: back).getLast? := by
    intro cs
    rw [List.getLast?_append, List.getLast?_eq_some_getLast (List.cons_ne_nil '/' back),
      Option.some_or]
  unfold normalizeChars
  rw [plainSegments_slash, plainSegments_slash, h, hlast, hlast]

theorem toList_behind (path rest : String) :
    (path ++ "/" ++ rest).toList = path.toList ++ '/' :: rest.toList := by
  rw [String.toList_append, String.toList_append, List.append_assoc]
  rfl

/-- What climbs goes on climbing. -/
theorem normalize_append_of_none {path : String} (hn : normalize path = none) (rest : String) :
    normalize (path ++ "/" ++ rest) = none := by
  rw [normalize_eq_none_iff] at hn ⊢
  rw [toList_behind, plainSegments_slash, hn]
  rfl

/-- What comes behind a path may as well come behind its normal spelling. -/
theorem normalize_append {path normal : String} (hn : normalize path = some normal)
    (rest : String) : normalize (path ++ "/" ++ rest) = normalize (normal ++ "/" ++ rest) := by
  obtain ⟨plain, hread, hspell⟩ := exists_plain_of_normalize hn
  have hsame : plainSegments path.toList = plainSegments normal.toList := by
    rw [hread, hspell, plainSegments_spell (isPlain_of_plainSegments hread)]
  unfold normalize
  rw [toList_behind, toList_behind, normalizeChars_slash_congr hsame]

/-! ### The normal spelling of every path -/

/-- `normal` spells the segments `plain`, and these are what is left of the path. -/
structure Spells (path normal : String) (plain : List (List Char)) : Prop where
  /-- No segment is empty, `.` or `..`. -/
  isPlain : ∀ s ∈ plain, IsPlain s
  /-- The segments of the path come to these. -/
  shortens : Relation.ReflTransGen Shortens (segments path.toList) plain
  /-- The spelling starts with a slash. -/
  head : normal.toList.head? = some '/'
  /-- Behind that slash come these segments, and at most one empty one after them. -/
  segments_eq : ∃ mark, (mark = [] ∨ mark = [[]]) ∧
    segments normal.toList = [] :: (plain ++ mark)
  /-- A slash at the end is the one of the path, or the only one there is. -/
  ends_iff : normal.toList.getLast? = some '/' ↔ path.toList.getLast? = some '/' ∨ plain = []
  /-- The spelling is its own normal spelling. -/
  fixed : normalize normal = some normal

theorem exists_spells {path normal : String} (hn : normalize path = some normal) :
    ∃ plain, Spells path normal plain := by
  obtain ⟨plain, hread, hspell⟩ := exists_plain_of_normalize hn
  have hplain := isPlain_of_plainSegments hread
  refine ⟨plain, hplain, ?_, ?_, ?_, ?_, normalize_of_isNormal (isNormal_of_normalize hn)⟩
  · -- nothing is kept before the first segment
    have hkept : ∀ s ∈ ([] : List (List Char)), IsName s := by simp
    exact shortens_of_plainFrom hkept hread
  · rw [hspell, head?_spell]
  · refine ⟨_, ?_, by rw [hspell, segments_spell hplain]⟩
    split
    · exact .inr rfl
    · exact .inl rfl
  · rw [hspell, getLast?_spell_iff hplain, beq_iff_eq]

/-- A path has no normal spelling exactly if a `..` in it finds no name to take back. Otherwise the
    normal spelling names what is left, with a slash before every name, and is normal itself.
    What comes behind the path climbs where the path does, and else comes to the same behind the
    normal spelling. -/
theorem normalize_left_to_right (path : String) :
    (normalize path = none ↔ Climbs path.toList) ∧
      (∀ normal, normalize path = some normal → ∃ plain, Spells path normal plain) ∧
      ∀ rest, (normalize path = none → normalize (path ++ "/" ++ rest) = none) ∧
        ∀ normal, normalize path = some normal →
          normalize (path ++ "/" ++ rest) = normalize (normal ++ "/" ++ rest) := by
  refine ⟨?_, fun normal hn => exists_spells hn, fun rest => ⟨fun hn => ?_, fun normal hn => ?_⟩⟩
  · rw [normalize_eq_none_iff, plainSegments_eq_none_iff]
  · exact normalize_append_of_none hn rest
  · exact normalize_append hn rest

end Hosting.VirtualPath
