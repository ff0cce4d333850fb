import Hosting.Proofs.Path.Components
import Hosting.Proofs.Path.ContextPaths

/-! # Paths put together

    Reading a path segment by segment, what comes first is kept while the rest is read, and
    the rest takes something of it back only where it climbs on its own.

    - `plainFrom_append`: the segments of two texts, one behind the other.
    - `plainSegments_append`: a rest that does not climb goes on behind what comes before it.
    - `normalizeChars_behind`: a path and its normal spelling with the same prefix cut off.
-/

namespace Hosting.VirtualPath

open Text

/-! ### Segments one after the other -/

theorem plainFrom_append (kept front back : List (List Char)) :
    plainFrom kept (front ++ back) =
      (plainFrom kept front).bind fun plain => plainFrom plain.reverse back := by
  induction front generalizing kept with
  | nil => simp [plainFrom]
  | cons segment front ih =>
    rw [List.cons_append]
    rcases segment_cases segment with hidle | rfl | hname
    · rw [plainFrom_cons_of_idle hidle, plainFrom_cons_of_idle hidle, ih]
    · cases kept with
      | nil => rfl
      | cons top above => rw [plainFrom_cons_cons_up, plainFrom_cons_cons_up, ih]
    · rw [plainFrom_cons_of_isName hname, plainFrom_cons_of_isName hname, ih]

/-- Segments that do not climb on their own are not affected by those kept before. -/
theorem plainFrom_kept {kept segments plain : List (List Char)} (below : List (List Char))
    (h : plainFrom kept segments = some plain) :
    plainFrom (kept ++ below) segments = some (below.reverse ++ plain) := by
  induction segments generalizing kept with
  | nil =>
    simp only [plainFrom, Option.some.injEq] at h ⊢
    rw [← h, List.reverse_append]
  | cons segment segments ih =>
    rcases segment_cases segment with hidle | rfl | hname
    · rw [plainFrom_cons_of_idle hidle] at h ⊢
      exact ih h
    · -- a step up takes back one of the segments kept since
      cases kept with
      | nil =>
        rw [plainFrom_nil_cons_up] at h
        cases h
      | cons top above =>
        rw [plainFrom_cons_cons_up] at h
        exact ih h
    · rw [plainFrom_cons_of_isName hname] at h ⊢
      exact ih h

/-! ### The slash at the end -/

theorem spell_of_ne_nil {plain : List (List Char)} (h : plain ≠ []) (trailing : Bool) :
    spell plain trailing = plain.flatMap ('/' :: ·) ++ if trailing then ['/'] else [] := by
  have hbody : plain.flatMap ('/' :: ·) ≠ [] := by
    cases plain with
    | nil => exact absurd rfl h
    | cons s plain => simp
  unfold spell
  cases trailing <;> simp [hbody]

theorem spell_inj_trailing {plain : List (List Char)} (h : plain ≠ []) {a b : Bool}
    (heq : spell plain a = spell plain b) : a = b := by
  rw [spell_of_ne_nil h, spell_of_ne_nil h] at heq
  cases a <;> cases b <;> simp_all

/-! ### Below a prefix -/

/-- What comes behind a prefix that ends where a segment ends. -/
theorem segments_append_of_startsSegment (start : List Char) {rest : List Char}
    (h : ContextPath.startsSegment rest = true) :
    segments (start ++ rest) = segments start ++ (segments rest).tail := by
  rcases ContextPath.startsSegment_iff.1 h with rfl | ⟨more, rfl⟩
  · simp [segments, pieces]
  · rw [segments_append_slash]
    simp [segments, pieces]

theorem plainSegments_of_startsSegment {rest : List Char}
    (h : ContextPath.startsSegment rest = true) :
    plainSegments rest = plainFrom [] (segments rest).tail := by
  have hsplit := segments_append_of_startsSegment [] h
  rw [List.nil_append] at hsplit
  rw [plainSegments, hsplit, plainFrom_append]
  rfl

/-- What does not climb on its own goes on behind what comes before it. -/
theorem plainSegments_append {start rest : List Char} {plain inner : List (List Char)}
    (hseg : ContextPath.startsSegment rest = true) (hstart : plainSegments start = some plain)
    (hrest : plainSegments rest = some inner) :
    plainSegments (start ++ rest) = some (plain ++ inner) := by
  rw [plainSegments_of_startsSegment hseg] at hrest
  have hkept := plainFrom_kept plain.reverse hrest
  rw [List.nil_append, List.reverse_reverse] at hkept
  rw [plainSegments, segments_append_of_startsSegment start hseg, plainFrom_append,
    ← plainSegments, hstart, Option.bind_some, hkept]

theorem plainSegments_cons_slash (cs : List Char) :
    plainSegments ('/' :: cs) = plainSegments cs := by
  simp [plainSegments, segments, pieces, plainFrom_cons_of_idle]

theorem plainSegments_append_slash {start rest : List Char} {plain inner : List (List Char)}
    (hstart : plainSegments start = some plain) (hrest : plainSegments rest = some inner) :
    plainSegments (start ++ '/' :: rest) = some (plain ++ inner) := by
  rw [← plainSegments_cons_slash] at hrest
  exact plainSegments_append rfl hstart hrest

/-- A normal path is read the same with a prefix cut off and without. -/
theorem plainSegments_of_append {start rest : List Char} {plain : List (List Char)}
    (hseg : ContextPath.startsSegment rest = true) (hplain : ∀ s ∈ plain, IsPlain s)
    (hnamed : named (start ++ rest) = plain) :
    plainSegments start = some (named start) ∧
      ∃ inner, plainSegments rest = some inner ∧ plain = named start ++ inner := by
  have hsplit : plain = named start ++ (segments rest).tail.filter (· ≠ []) := by
    rw [← hnamed, named, named, segments_append_of_startsSegment start hseg,
      List.filter_append]
  have hstart : plainSegments start = some (named start) := by
    rw [plainSegments, plainFrom_of_filter [] rfl fun s hs => hplain s (by
      rw [hsplit]
      exact List.mem_append_left _ hs)]
    rfl
  refine ⟨hstart, _, ?_, hsplit⟩
  rw [plainSegments_of_startsSegment hseg, plainFrom_of_filter [] rfl fun s hs => hplain s (by
    rw [hsplit]
    exact List.mem_append_right _ hs)]
  rfl

/-- Where a path and its normal spelling go on after one prefix, both go on to the same place, or
    the path climbs above the prefix. -/
theorem normalizeChars_behind {start rest rest' normal : List Char}
    (hnormal : normalizeChars (start ++ rest) = some normal) (heq : normal = start ++ rest')
    (hseg : ContextPath.startsSegment rest = true)
    (hseg' : ContextPath.startsSegment rest' = true) :
    normalizeChars rest = none ∨ normalizeChars rest = normalizeChars rest' := by
  obtain ⟨plain, hread, hspell⟩ := Option.map_eq_some_iff.1 hnormal
  have hplain := isPlain_of_plainSegments hread
  -- the normal spelling names the plain segments, those of the prefix first
  have hnamed : named (start ++ rest') = plain := by
    rw [← heq, ← hspell, named_spell hplain]
  obtain ⟨hstart, inner', hinner', hsplit⟩ := plainSegments_of_append hseg' hplain hnamed
  cases hinner : plainSegments rest with
  | none => exact .inl (by rw [normalizeChars, hinner]; rfl)
  | some inner =>
    -- so does the path as it is spelled, since the rest does not climb
    have hboth : plain = named start ++ inner :=
      Option.some.inj (hread.symm.trans (plainSegments_append hseg hstart hinner))
    obtain rfl : inner = inner' := List.append_cancel_left (hboth.symm.trans hsplit)
    refine .inr ?_
    rw [normalizeChars, normalizeChars, hinner, hinner', Option.map_some, Option.map_some]
    congr 1
    by_cases hnil : inner = []
    · rw [hnil]
      simp [spell]
    · -- both rests hold a segment, so the slash at their end is the one of the whole path
      have hne {cs : List Char} (h : plainSegments cs = some inner) : cs ≠ [] := by
        rintro rfl
        exact hnil (Option.some.inj h).symm
      have hend {cs : List Char} (h : cs ≠ []) : (start ++ cs).getLast? = cs.getLast? := by
        rw [List.getLast?_append, List.getLast?_eq_some_getLast h, Option.some_or]
      have hplainne : plain ≠ [] := by
        rw [hboth]
        exact fun h => hnil (List.append_eq_nil_iff.1 h).2
      have hslash : (rest.getLast? == some '/') = (rest'.getLast? == some '/') := by
        apply spell_inj_trailing hplainne
        rw [← hend (hne hinner), ← hend (hne hinner'), ← heq, hspell, ← hspell,
          spell_getLast hplain]
      rw [hslash]

end Hosting.VirtualPath
