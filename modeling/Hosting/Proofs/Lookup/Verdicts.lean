import Hosting.Namespace
import Hosting.Proofs.Path.Reading
import Hosting.Proofs.Path.ReservedNames

/-! # Two verdicts on one path

    Whoever asks whether a path is protected is answered about the path as it is spelled. A
    lookup asks about the normal spelling. With single segments reserved, either answer is
    about one segment: the first one that is written behind a slash at the start, and the
    first one that the path comes to.

    - `written`, `reached`: the two segments.
    - `isProtected_ofNames_iff_written`: the answer is about the segment that is written.
    - `isProtected_agree_iff`: when the two answers are the same.
    - `isProtected_not_agree`: a path that is not called protected, and is hidden.
-/

namespace Hosting

open Text VirtualPath ProtectedTargets

namespace VirtualPath

/-! ### First segments -/

/-- The first segment of a path as it is spelled, if the path starts with a slash. -/
def written (path : String) : Option (List Char) :=
  if path.toList.head? = some '/' then (named path.toList).head? else none

/-- The first segment that a path comes to. -/
def reached (path : String) : Option (List Char) :=
  (plainSegments path.toList).bind List.head?

/-- A text is a segment, and what comes behind it starts with a slash if there is anything. -/
theorem exists_segment_append (cs : List Char) :
    ∃ s tail, cs = s ++ tail ∧ '/' ∉ s ∧ (tail = [] ∨ ∃ rest, tail = '/' :: rest) := by
  induction cs with
  | nil => exact ⟨[], [], rfl, List.not_mem_nil, .inl rfl⟩
  | cons c cs ih =>
    by_cases hc : c = '/'
    · subst hc
      exact ⟨[], '/' :: cs, rfl, List.not_mem_nil, .inr ⟨cs, rfl⟩⟩
    · obtain ⟨s, tail, rfl, hs, htail⟩ := ih
      refine ⟨c :: s, tail, rfl, ?_, htail⟩
      rw [List.mem_cons, not_or]
      exact ⟨Ne.symm hc, hs⟩

/-- A text that starts with a segment has it as its first segment. -/
theorem head?_named_append {s tail : List Char} (hne : s ≠ []) (hs : '/' ∉ s)
    (htail : tail = [] ∨ ∃ rest, tail = '/' :: rest) : (named (s ++ tail)).head? = some s := by
  have hsep := not_sep_of_no_slash hs
  unfold named segments
  rcases htail with rfl | ⟨rest, rfl⟩
  · rw [List.append_nil, pieces_of_not_sep hsep, List.filter_cons_of_pos (by simpa using hne)]
    rfl
  · rw [pieces_append_sep rest hsep (by simp), List.filter_cons_of_pos (by simpa using hne)]
    rfl

/-- Behind the slashes at its start, a text is empty or goes on with its first segment. -/
theorem first_segment_cases (cs : List Char) :
    (cs.dropWhile (· == '/') = [] ∧ (named cs).head? = none) ∨
      ∃ s tail, cs.dropWhile (· == '/') = s ++ tail ∧ '/' ∉ s ∧
        (tail = [] ∨ ∃ rest, tail = '/' :: rest) ∧ (named cs).head? = some s := by
  induction cs with
  | nil => exact .inl ⟨rfl, rfl⟩
  | cons c cs ih =>
    by_cases hc : c = '/'
    · subst hc
      rw [named_slash]
      exact ih
    · obtain ⟨s, tail, rfl, hs, htail⟩ := exists_segment_append cs
      have hslash : '/' ∉ c :: s := by
        rw [List.mem_cons, not_or]
        exact ⟨Ne.symm hc, hs⟩
      refine .inr ⟨c :: s, tail, ?_, hslash, htail, ?_⟩
      · exact List.dropWhile_cons_of_neg (by simpa using hc)
      · exact head?_named_append (List.cons_ne_nil c s) hslash htail

/-- A normal spelling is written as the path comes to it. -/
theorem written_of_normalize {path normal : String} (hn : normalize path = some normal) :
    written normal = reached path := by
  obtain ⟨plain, hread, hspell⟩ := exists_plain_of_normalize hn
  unfold written reached
  rw [hread, hspell, head?_spell, if_pos rfl, named_spell (isPlain_of_plainSegments hread)]
  rfl

end VirtualPath

/-! ### What is reserved -/

namespace ProtectedTargets

/-- There is a first segment, and it begins with one of the names up to its end or a delimiter. -/
def ReservesFirst (names : List String) (first : Option (List Char)) : Prop :=
  ∃ s, first = some s ∧ ∃ name ∈ names, trimmed name ≠ [] ∧ reserves (trimmed name) s = true

/-- A path that does not start with a slash begins with no target. -/
theorem not_isProtected_of_head? {names : List String} {path : String}
    (h : path.toList.head? ≠ some '/') : (ofNames names).isProtected path = false := by
  rw [Bool.eq_false_iff]
  intro hprotected
  unfold isProtected at hprotected
  rw [Bool.and_eq_true, List.any_eq_true] at hprotected
  obtain ⟨-, target, hmem, hreserves⟩ := hprotected
  obtain ⟨name, -, -, rfl⟩ := mem_targets_ofNames.1 hmem
  obtain ⟨front, rest, hsplit, hfront, -⟩ := reserves_iff_exists.1 hreserves
  -- the target starts with a slash, and so does what it is compared with
  rw [String.toList_ofList] at hfront
  cases front with
  | nil => cases hfront
  | cons c front =>
    obtain rfl : c = '/' := toLower_eq_slash_iff.1 (List.cons.inj hfront).1
    apply h
    cases htext : path.toList with
    | nil =>
      rw [htext] at hsplit
      cases hsplit
    | cons d cs =>
      by_cases hd : d = '/'
      · rw [hd]
        rfl
      · have hsame : oneSlash (d :: cs) = d :: cs := by
          rw [oneSlash]
          rintro rest heq
          exact hd (List.cons.inj heq).1
        rw [htext, hsame] at hsplit
        exact absurd (List.cons.inj hsplit).1 hd

/-- With single segments reserved, the answer about a path is about the segment that is written
    first. -/
theorem isProtected_ofNames_iff_written {names : List String}
    (hnames : ∀ name ∈ names, '/' ∉ trimmed name) (path : String) :
    (ofNames names).isProtected path = true ↔ ReservesFirst names (written path) := by
  by_cases hslash : path.toList.head? = some '/'
  · obtain ⟨cs, hcs⟩ := List.head?_eq_some_iff.1 hslash
    have hpath : path = "/" ++ String.ofList cs := by
      rw [← String.ofList_toList (s := path), hcs, String.ofList_cons]
      rfl
    have hwritten : written path = (named cs).head? := by
      unfold written
      rw [if_pos hslash, hcs, named_slash]
    rw [hwritten, hpath, isProtected_ofNames_iff, String.toList_ofList]
    unfold ReservesFirst
    rcases first_segment_cases cs with ⟨hrest, hfirst⟩ | ⟨s, tail, hrest, hs, htail, hfirst⟩
    · -- nothing comes behind the slashes, and a name is not empty
      rw [hrest, hfirst]
      constructor
      · rintro ⟨name, -, hne, hreserves⟩
        obtain ⟨front, rest, hsplit, hfront, -⟩ := reserves_iff_exists.1 hreserves
        obtain ⟨rfl, -⟩ := List.append_eq_nil_iff.1 hsplit.symm
        have hlength := congrArg List.length hfront
        rw [length_lowercase, length_lowercase] at hlength
        exact absurd (List.length_eq_zero_iff.1 hlength.symm) hne
      · rintro ⟨s, hs, -⟩
        cases hs
    · rw [hrest, hfirst]
      constructor
      · rintro ⟨name, hname, hne, hreserves⟩
        rw [reserves_append (hnames name hname) s htail] at hreserves
        exact ⟨s, rfl, name, hname, hne, hreserves⟩
      · rintro ⟨s', hs', name, hname, hne, hreserves⟩
        obtain rfl := Option.some.inj hs'
        refine ⟨name, hname, hne, ?_⟩
        rw [reserves_append (hnames name hname) s htail]
        exact hreserves
  · rw [not_isProtected_of_head? hslash]
    unfold written
    rw [if_neg hslash]
    constructor
    · intro h
      cases h
    · rintro ⟨s, hs, -⟩
      cases hs

end ProtectedTargets

namespace Namespace

variable {ns : Namespace} {path normal : String} {names : List String}

/-- With single segments reserved, a path and its normal spelling get the same verdict exactly if
    the segment that is written first and the segment that the path comes to first are both
    reserved or both not. -/
theorem isProtected_agree_iff (hreserved : ns.reserved = .ofNames names)
    (hnames : ∀ name ∈ names, '/' ∉ trimmed name) (hn : normalize path = some normal) :
    ns.isProtected path = ns.isProtected normal ↔
      (ReservesFirst names (written path) ↔ ReservesFirst names (reached path)) := by
  unfold isProtected
  rw [hreserved, Bool.eq_iff_iff, isProtected_ofNames_iff_written hnames,
    isProtected_ofNames_iff_written hnames, written_of_normalize hn]

/-- The namespace of a new application. -/
def untouched : Namespace := .ofTargets .default

/-- The path has a slash too many, a step up behind its first segment and a delimiter in it, and
    both verdicts are about that segment. -/
theorem isProtected_agree_iff_delimited :
    untouched.reserved = .ofNames defaultNames ∧
      (∀ name ∈ defaultNames, '/' ∉ trimmed name) ∧
      normalize "//Web-Inf;v=1/lib/../web.xml" = some "/Web-Inf;v=1/web.xml" ∧
      untouched.isProtected "//Web-Inf;v=1/lib/../web.xml" =
        untouched.isProtected "/Web-Inf;v=1/web.xml" := by
  have hnames : ∀ name ∈ defaultNames, '/' ∉ trimmed name := by
    decide
  have hn : normalize "//Web-Inf;v=1/lib/../web.xml" = some "/Web-Inf;v=1/web.xml" := by
    decide +kernel
  have hsame : written "//Web-Inf;v=1/lib/../web.xml" = reached "//Web-Inf;v=1/lib/../web.xml" := by
    decide +kernel
  exact ⟨rfl, hnames, hn, (isProtected_agree_iff rfl hnames hn).2 (by rw [hsame])⟩

/-- A path is not always called protected when a lookup takes it for protected. -/
theorem isProtected_not_agree :
    ¬ ∀ (ns : Namespace) (path normal : String), normalize path = some normal →
      ns.isProtected path = ns.isProtected normal := by
  intro hall
  have hn : normalize "/./WEB-INF/web.xml" = some "/WEB-INF/web.xml" := by
    decide +kernel
  have hopen : untouched.isProtected "/./WEB-INF/web.xml" = false := by
    decide +kernel
  have hhidden : untouched.isProtected "/WEB-INF/web.xml" = true := by
    decide +kernel
  have hsame := hall untouched _ _ hn
  rw [hopen, hhidden] at hsame
  cases hsame

end Namespace

end Hosting
