import Hosting.Proofs.Library.Resolution
import Hosting.Proofs.Path.Components
import Mathlib.Data.List.Induction

/-! # First arrivals on a search path

    A search path is built by calls that bring one library or several. Of all libraries that
    arrive for one place the first one stays, whatever kind it is and however its path is
    spelled, and the order of arrival is kept.

    Each library on the path is shown by its identifier. This has a slash behind a directory,
    which does not count in a path, so what follows `file:` still spells the place of the
    library, provided that the path starts at the root, has no backslash in it and is a text.
    Bytes that are no text are shown by a character that stands for any of them, so paths
    that differ there only have one identifier.

    - `firstArrivals`: what stays, by position in the order of arrival.
    - `pushAll_of_nothing`: a search path that was empty holds the first arrivals.
    - `same_pathOf_location`: an identifier leads back to the place as it is shown.
    - `keeps_first_arrivals`: every way of building a search path.
    - `locations_not_distinct`: two places with one identifier.
-/

namespace Hosting

open Library

/-! ### Arrivals -/

namespace Library

/-- The libraries whose place no library before them takes. -/
def firstArrivals (all : List Library) : List Library :=
  (all.zipIdx.filter fun entry => !takes (all.take entry.2) entry.1).map (·.1)

/-- One more library stays if its place is still free, and changes nothing before it. -/
theorem firstArrivals_concat (all : List Library) (l : Library) :
    firstArrivals (all ++ [l]) = firstArrivals all ++ if takes all l then [] else [l] := by
  -- what stands before a position does not depend on what comes behind it
  have hbefore : (all.zipIdx.filter fun entry => !takes ((all ++ [l]).take entry.2) entry.1) =
      all.zipIdx.filter fun entry => !takes (all.take entry.2) entry.1 := by
    apply List.filter_congr
    intro entry hmem
    have hlt : entry.2 < all.length := by
      have hrange := (List.mem_zipIdx hmem).2.1
      omega
    rw [List.take_append_of_le_length (Nat.le_of_lt hlt)]
  have hlast : (([l].zipIdx all.length).filter fun entry =>
        !takes ((all ++ [l]).take entry.2) entry.1).map (·.1) =
      if takes all l then [] else [l] := by
    rw [List.zipIdx_singleton, List.filter_cons, List.filter_nil, List.take_left]
    cases takes all l <;> rfl
  unfold firstArrivals
  rw [List.zipIdx_append, List.filter_append, List.map_append, hbefore, Nat.zero_add, hlast]

theorem eachPlaceOnce_concat (all : List Library) (l : Library) :
    eachPlaceOnce (all ++ [l]) =
      eachPlaceOnce all ++ if takes (eachPlaceOnce all) l then [] else [l] := by
  have hone : eachPlaceOnce [l] = [l] := by
    unfold eachPlaceOnce
    rw [List.eraseDupsBy_cons]
    rfl
  rw [eachPlaceOnce_append, hone, List.filter_cons, List.filter_nil]
  cases takes (eachPlaceOnce all) l <;> rfl

/-- What is left out has its place taken by something that stays. -/
theorem takes_eachPlaceOnce (all : List Library) (l : Library) :
    takes (eachPlaceOnce all) l = takes all l := by
  induction all using List.reverseRecOn with
  | nil => rfl
  | append_singleton all k ih =>
    have hsplit (ls ks : List Library) : takes (ls ++ ks) l = (takes ls l || takes ks l) :=
      List.any_append
    rw [eachPlaceOnce_concat, hsplit, hsplit, ih]
    by_cases htaken : takes (eachPlaceOnce all) k = true
    · rw [if_pos htaken]
      by_cases hsame : takes [k] l = true
      · -- the place of `k` is that of `l`, and it was taken before
        have hplace : k.path.same l.path = true := by simpa [takes] using hsame
        rw [← ih, ← takes_congr _ hplace, htaken, Bool.true_or, Bool.true_or]
      · rw [Bool.not_eq_true] at hsame
        rw [hsame]
        rfl
    · rw [if_neg htaken]

/-- Leaving out repetitions leaves the first arrivals. -/
theorem eachPlaceOnce_eq_firstArrivals (all : List Library) :
    eachPlaceOnce all = firstArrivals all := by
  induction all using List.reverseRecOn with
  | nil => rfl
  | append_singleton all l ih =>
    rw [eachPlaceOnce_concat, firstArrivals_concat, takes_eachPlaceOnce, ih]

theorem atDistinctPlaces_firstArrivals (all : List Library) :
    AtDistinctPlaces (firstArrivals all) := by
  rw [← eachPlaceOnce_eq_firstArrivals]
  exact atDistinctPlaces_eachPlaceOnce all

theorem takes_firstArrivals (all : List Library) (l : Library) :
    takes (firstArrivals all) l = takes all l := by
  rw [← eachPlaceOnce_eq_firstArrivals, takes_eachPlaceOnce]

theorem firstArrivals_subset {all : List Library} {l : Library} (h : l ∈ firstArrivals all) :
    l ∈ all := by
  rw [← eachPlaceOnce_eq_firstArrivals] at h
  exact (eraseDupsBy_sublist all).subset h

theorem takes_eq_false_iff {all : List Library} {l : Library} :
    takes all l = false ↔ ∀ k ∈ all, k.path.components ≠ l.path.components := by
  unfold takes
  rw [List.any_eq_false]
  simp only [FilePath.same_iff, ne_eq]

/-! ### Identifiers -/

/-- The path starts at the root, and there is no backslash in it. -/
def IsPlainlyRooted (p : FilePath) : Prop :=
  p.isAbsolute = true ∧ .char '\\' ∉ p.chars

instance (p : FilePath) : Decidable (IsPlainlyRooted p) :=
  inferInstanceAs (Decidable (_ ∧ _))

/-- The path as it is shown, with one character in place of each run of bytes that is none. -/
def shownPath (p : FilePath) : FilePath :=
  .ofChars p.text.toList

/-- The path that an identifier spells behind `file:`. -/
def pathOf (location : String) : FilePath :=
  .ofChars (location.toList.drop 5)

theorem IsPlainlyRooted.head?_text {p : FilePath} (h : IsPlainlyRooted p) :
    p.text.toList.head? = some '/' := by
  rw [FilePath.toList_text, List.head?_map, beq_iff_eq.1 h.1]
  rfl

/-- No run of bytes is shown as a backslash. -/
theorem IsPlainlyRooted.not_mem_text {p : FilePath} (h : IsPlainlyRooted p) :
    '\\' ∉ p.text.toList := by
  rw [FilePath.toList_text, List.mem_map]
  rintro ⟨c, hc, hshown⟩
  cases c with
  | char c =>
    obtain rfl : c = '\\' := hshown
    exact h.2 hc
  | stray s =>
    have hreplaced : Text.replacement = '\\' := hshown
    exact absurd hreplaced (by decide)

/-- A slash at the end is all that the identifier adds to the path as it is shown. -/
theorem toList_location {l : Library} (h : IsPlainlyRooted l.path) :
    ∃ run, (run = [] ∨ run = ['/']) ∧
      l.location.toList = "file:".toList ++ (l.path.text.toList ++ run) := by
  have hkept : (l.path.text.toList.map fun c => if c = '\\' then '/' else c) =
      l.path.text.toList := by
    rw [List.map_congr_left (g := id), List.map_id]
    intro c hc
    have hne : c ≠ '\\' := by
      intro heq
      rw [heq] at hc
      exact h.not_mem_text hc
    exact if_neg hne
  unfold location
  simp only [hkept, if_pos h.head?_text, String.toList_append, String.toList_ofList]
  by_cases hended : l.kind = .directory ∧ l.path.text.toList.getLast? ≠ some '/'
  · rw [if_pos hended]
    exact ⟨['/'], .inr rfl, rfl⟩
  · rw [if_neg hended]
    exact ⟨[], .inl rfl, by rw [List.append_nil]⟩

/-- The identifier spells the place of the library as it is shown. -/
theorem same_pathOf_location {l : Library} (h : IsPlainlyRooted l.path) :
    (pathOf l.location).same (shownPath l.path) = true := by
  have hne : (shownPath l.path).chars ≠ [] := by
    intro hempty
    have hhead := h.head?_text
    rw [List.map_eq_nil_iff.1 hempty] at hhead
    cases hhead
  obtain ⟨run, hrun, hlocation⟩ := toList_location h
  have hpath : (pathOf l.location).chars = (shownPath l.path).chars ++ run.map .char := by
    have hdrop : l.location.toList.drop 5 = l.path.text.toList ++ run := by
      rw [hlocation]
      rfl
    show (l.location.toList.drop 5).map PathChar.char = _
    rw [hdrop, List.map_append]
    rfl
  apply FilePath.same_iff.2
  unfold FilePath.components
  rw [hpath]
  rcases hrun with hnone | hslash
  · rw [hnone, List.map_nil, List.append_nil]
  · rw [hslash]
    exact FilePath.componentsOf_append_slash hne

theorem shownPath_of_isText {p : FilePath} (h : p.isText = true) : shownPath p = p :=
  FilePath.ofChars_text h

/-- Libraries with one identifier are at one place, if that is a text. -/
theorem same_of_location_eq {l k : Library} (hl : IsPlainlyRooted l.path)
    (hk : IsPlainlyRooted k.path) (hltext : l.path.isText = true) (hktext : k.path.isText = true)
    (heq : l.location = k.location) : l.path.same k.path = true := by
  have hleft := FilePath.same_iff.1 (same_pathOf_location hl)
  have hright := FilePath.same_iff.1 (same_pathOf_location hk)
  rw [heq, shownPath_of_isText hltext] at hleft
  rw [shownPath_of_isText hktext] at hright
  exact FilePath.same_iff.2 (hleft.symm.trans hright)

end Library

/-! ### Calls -/

namespace LibrarySet

/-- A call that adds to a search path. -/
inductive Addition where
  /-- One library, with an answer. -/
  | push (l : Library)
  /-- Libraries one after the other. -/
  | extend (ls : List Library)
deriving DecidableEq, Repr

/-- The libraries that a call brings. -/
def Addition.brought : Addition → List Library
  | .push l => [l]
  | .extend ls => ls

/-- All libraries that calls bring, in the order of their arrival. -/
def arrivals (calls : List Addition) : List Library :=
  calls.flatMap Addition.brought

/-- The search path after a call. -/
def after (s : LibrarySet) : Addition → LibrarySet
  | .push l => s.push l
  | .extend ls => s.pushAll ls

/-- The search path with these rules that calls build from nothing. -/
def built (first : Bool) (rules : Visibility) (calls : List Addition) : LibrarySet :=
  calls.foldl after ⟨[], first, rules⟩

/-- Calls bring their libraries one after the other, whatever the calls are. -/
theorem foldl_after (s : LibrarySet) (calls : List Addition) :
    calls.foldl after s = s.pushAll (arrivals calls) := by
  induction calls generalizing s with
  | nil => rfl
  | cons call rest ih =>
    have hone : s.after call = s.pushAll call.brought := by
      cases call <;> rfl
    have hall : arrivals (call :: rest) = call.brought ++ arrivals rest := List.flatMap_cons
    rw [List.foldl_cons, ih, hone, hall]
    unfold pushAll
    rw [List.foldl_append]

theorem pushAll_of_nothing (first : Bool) (rules : Visibility) (ls : List Library) :
    (⟨[], first, rules⟩ : LibrarySet).pushAll ls = ⟨firstArrivals ls, first, rules⟩ := by
  rw [pushAll_eq, ← Classpath.eachPlaceOnce_eq_foldl, eachPlaceOnce_eq_firstArrivals]

theorem built_eq (first : Bool) (rules : Visibility) (calls : List Addition) :
    built first rules calls = ⟨firstArrivals (arrivals calls), first, rules⟩ := by
  unfold built
  rw [foldl_after, pushAll_of_nothing]

/-- A library is accepted if nothing has arrived for its place before. -/
theorem accepts_built_iff {first : Bool} {rules : Visibility} {calls : List Addition}
    {l : Library} : (built first rules calls).accepts l = true ↔
      ∀ k ∈ arrivals calls, k.path.components ≠ l.path.components := by
  have hholds : (built first rules calls).holds l.path = takes (arrivals calls) l := by
    rw [built_eq]
    exact takes_firstArrivals _ l
  unfold accepts
  rw [hholds, Bool.not_eq_true', takes_eq_false_iff]

/-- An accepted library is put at the end, and any other changes nothing. -/
theorem push_eq_ite (s : LibrarySet) (l : Library) :
    s.push l = if s.accepts l = true then { s with libraries := s.libraries ++ [l] } else s := by
  unfold push accepts
  cases s.holds l.path <;> rfl

theorem nodup_locations {s : LibrarySet} (hdistinct : AtDistinctPlaces s.libraries)
    (hplain : ∀ l ∈ s.libraries, IsPlainlyRooted l.path)
    (htext : ∀ l ∈ s.libraries, l.path.isText = true) : s.locations.Nodup := by
  apply List.pairwise_map.2
  apply hdistinct.imp_of_mem
  intro l k hl hk hapart heq
  have hsame := same_of_location_eq (hplain l hl) (hplain k hk) (htext l hl) (htext k hk) heq
  rw [hapart] at hsame
  cases hsame

/-- However a search path is built, it holds the first library that has arrived for each place, in
    the order of arrival, and no place twice. A library is accepted exactly if none has arrived
    for its place, of any kind and in any spelling. Where all paths start at the root and have no
    backslash, each identifier leads to the place of its library as that is shown. Where they are
    texts besides, this is the place itself, and the identifiers differ. -/
theorem keeps_first_arrivals (first : Bool) (rules : Visibility) (calls : List Addition) :
    built first rules calls = ⟨firstArrivals (arrivals calls), first, rules⟩ ∧
      AtDistinctPlaces (built first rules calls).libraries ∧
      (∀ l, ((built first rules calls).accepts l = true ↔
          ∀ k ∈ arrivals calls, k.path.components ≠ l.path.components) ∧
        (built first rules calls).push l =
          if (built first rules calls).accepts l = true then
            ⟨(built first rules calls).libraries ++ [l], first, rules⟩
          else built first rules calls) ∧
      ((∀ l ∈ arrivals calls, IsPlainlyRooted l.path) →
        (∀ l ∈ arrivals calls, (pathOf l.location).same (shownPath l.path) = true) ∧
          ((∀ l ∈ arrivals calls, l.path.isText = true) →
            (built first rules calls).locations.Nodup ∧
              ∀ l ∈ arrivals calls, (pathOf l.location).same l.path = true ∧
                ∀ k ∈ arrivals calls, l.location = k.location → l.path.same k.path = true)) := by
  have hbuilt := built_eq first rules calls
  have hdistinct : AtDistinctPlaces (built first rules calls).libraries := by
    rw [hbuilt]
    exact atDistinctPlaces_firstArrivals _
  have harrived {l : Library} (hl : l ∈ (built first rules calls).libraries) :
      l ∈ arrivals calls := by
    rw [hbuilt] at hl
    exact firstArrivals_subset hl
  refine ⟨hbuilt, hdistinct, ?_, ?_⟩
  · intro l
    refine ⟨accepts_built_iff, ?_⟩
    rw [push_eq_ite]
    simp only [hbuilt]
  · intro hplain
    refine ⟨fun l hl => same_pathOf_location (hplain l hl), ?_⟩
    intro htext
    refine ⟨?_, ?_⟩
    · exact nodup_locations hdistinct (fun l hl => hplain l (harrived hl))
        fun l hl => htext l (harrived hl)
    · intro l hl
      have hspells := same_pathOf_location (hplain l hl)
      rw [shownPath_of_isText (htext l hl)] at hspells
      refine ⟨hspells, ?_⟩
      intro k hk heq
      exact same_of_location_eq (hplain l hl) (hplain k hk) (htext l hl) (htext k hk) heq

/-- A directory, an archive at the same place in another spelling, and an archive of its own that
    comes a second time as a directory. -/
def respelledCalls : List Addition :=
  [.push ⟨⟨"/srv/a"⟩, .directory⟩, .push ⟨⟨"/srv//./a/"⟩, .archive⟩,
    .extend [⟨⟨"/srv/b.jar"⟩, .archive⟩, ⟨⟨"/srv/b.jar/."⟩, .directory⟩]]

theorem keeps_first_arrivals_respelled :
    (∀ l ∈ arrivals respelledCalls, IsPlainlyRooted l.path) ∧
      (∀ l ∈ arrivals respelledCalls, l.path.isText = true) ∧
      (built true .empty respelledCalls).locations = ["file:/srv/a/", "file:/srv/b.jar"] ∧
      (built true .empty respelledCalls).locations.Nodup ∧
      (built true .empty respelledCalls).accepts ⟨⟨"/srv/a/."⟩, .archive⟩ = false := by
  have hplain : ∀ l ∈ arrivals respelledCalls, IsPlainlyRooted l.path := by
    decide +kernel
  have htext : ∀ l ∈ arrivals respelledCalls, l.path.isText = true := by
    decide +kernel
  obtain ⟨-, -, -, hlocations⟩ := keeps_first_arrivals true .empty respelledCalls
  exact ⟨hplain, htext, by decide +kernel, ((hlocations hplain).2 htext).1, by decide +kernel⟩

/-- The archive `a?.jar` in `/srv`, where one byte that is no character stands for the question
    mark. -/
def strayArchive (s : Stray) : Library :=
  ⟨⟨("/srv/a" : List PathChar) ++ .stray s :: (".jar" : List PathChar)⟩, .archive⟩

/-- Two archives at different places. The bytes in which their names differ are shown as one and the
    same character, so they have one identifier. -/
theorem locations_not_distinct :
    ¬ ∀ (first : Bool) (rules : Visibility) (calls : List Addition),
      (∀ l ∈ arrivals calls, IsPlainlyRooted l.path) →
        (built first rules calls).locations.Nodup ∧
          ∀ l ∈ arrivals calls, ∀ k ∈ arrivals calls, l.location = k.location →
            l.path.same k.path = true := by
  intro hall
  obtain ⟨hnodup, -⟩ := hall false .empty
    [.push (strayArchive ⟨[0xFF], rfl⟩), .push (strayArchive ⟨[0xFE], rfl⟩)] (by decide +kernel)
  revert hnodup
  decide +kernel

end LibrarySet

end Hosting
