import Hosting.Proofs.Path.LeadingSegments

/-! # Reserved names and first segments

    A path is compared with a reserved name at its start, byte by byte. If every name is one
    segment, this is the same as taking the first segment of the path, cutting it at its
    first delimiter and looking it up among the names.

    - `trimmed`: a name as it is compared.
    - `reserves_iff_exists`: what it means that a path begins with a name.
    - `isProtected_ofNames_iff`: a path behind its slashes begins with one of the names.
    - `isProtectedAt`, `isProtectedAt_eq`: the reading by byte offsets, in which no cut fails.
    - `isProtected_iff_leadingSegment`: the first segment is one of the names.
-/

namespace Hosting.ProtectedTargets

open Text

/-! ### Names as they are compared -/

/-- A configured name without the blanks around it and the slashes at its ends. -/
def trimmed (name : String) : List Char :=
  dropEnd (· == '/') ((strip isBlank name.toList).dropWhile (· == '/'))

theorem dropEnd_lowercase (cs : List Char) :
    dropEnd (· == '/') (lowercase cs) = lowercase (dropEnd (· == '/') cs) := by
  have hslash (c : Char) : (c.toLower == '/') = (c == '/') := by
    rw [Bool.eq_iff_iff, beq_iff_eq, beq_iff_eq, toLower_eq_slash_iff]
  induction cs with
  | nil => rfl
  | cons c cs ih =>
    show dropEnd (· == '/') (c.toLower :: lowercase cs) = _
    rw [dropEnd, dropEnd, ih, hslash]
    cases dropEnd (· == '/') cs with
    | nil => cases c == '/' <;> rfl
    | cons d rest => rfl

theorem stored_eq (name : String) : stored name.toList = '/' :: lowercase (trimmed name) := by
  unfold stored trimmed
  rw [dropEnd_lowercase]

/-- The targets are the names in lower case with a slash before each, but for the empty ones. -/
theorem mem_targets_ofNames {names : List String} {target : String} :
    target ∈ (ofNames names).targets ↔
      ∃ name ∈ names, trimmed name ≠ [] ∧ target = .ofList ('/' :: lowercase (trimmed name)) := by
  have hlong (name : String) : 1 < (stored name.toList).length ↔ trimmed name ≠ [] := by
    rw [stored_eq, List.length_cons, length_lowercase, ← List.length_pos_iff]
    omega
  unfold ofNames
  simp only [List.mem_map, List.mem_filter, decide_eq_true_eq]
  constructor
  · rintro ⟨_, ⟨⟨name, hname, rfl⟩, hne⟩, rfl⟩
    exact ⟨name, hname, (hlong name).1 hne, by rw [stored_eq]⟩
  · rintro ⟨name, hname, hne, rfl⟩
    exact ⟨_, ⟨⟨name, hname, rfl⟩, (hlong name).2 hne⟩, by rw [stored_eq]⟩

/-! ### Beginning with a name -/

/-- The character ends the part of a segment that is compared. -/
def delimits (c : Char) : Bool :=
  c == '/' || c == '?' || c == '#' || c == ';'

theorem endsSegment_eq_all (cs : List Char) :
    endsSegment cs = cs.head?.all delimits := by
  cases cs <;> rfl

theorem afterReserved_eq_some_iff {reserved cs rest : List Char} :
    afterReserved reserved cs = some rest ↔
      ∃ front, cs = front ++ rest ∧ lowercase front = lowercase reserved := by
  induction reserved generalizing cs with
  | nil =>
    rw [afterReserved, Option.some.injEq]
    constructor
    · rintro rfl
      exact ⟨[], rfl, rfl⟩
    · rintro ⟨front, rfl, hfront⟩
      obtain rfl : front = [] := by simpa [lowercase] using hfront
      rfl
  | cons r reserved ih =>
    cases cs with
    | nil =>
      simp only [afterReserved, reduceCtorEq, false_iff]
      rintro ⟨front, hsplit, hfront⟩
      obtain ⟨rfl, -⟩ := List.append_eq_nil_iff.1 hsplit.symm
      simp [lowercase] at hfront
    | cons c cs =>
      rw [afterReserved]
      constructor
      · intro h
        by_cases hc : c.toLower = r.toLower
        · rw [if_pos hc] at h
          obtain ⟨front, rfl, hfront⟩ := ih.1 h
          exact ⟨c :: front, rfl, congrArg₂ List.cons hc hfront⟩
        · rw [if_neg hc] at h
          cases h
      · rintro ⟨front, hsplit, hfront⟩
        cases front with
        | nil => simp [lowercase] at hfront
        | cons d front =>
          obtain ⟨rfl, rfl⟩ := List.cons.inj hsplit
          obtain ⟨hc, hrest⟩ := List.cons.inj hfront
          rw [if_pos hc]
          exact ih.2 ⟨front, rfl, hrest⟩

/-- A path begins with a name if a part of it is the name up to case, and a segment or the part of
    it that is compared ends there. -/
theorem reserves_iff_exists {reserved cs : List Char} :
    reserves reserved cs = true ↔
      ∃ front rest, cs = front ++ rest ∧ lowercase front = lowercase reserved ∧
        endsSegment rest = true := by
  unfold reserves
  constructor
  · intro h
    cases hrest : afterReserved reserved cs with
    | none =>
      rw [hrest] at h
      cases h
    | some rest =>
      rw [hrest] at h
      obtain ⟨front, hsplit, hfront⟩ := afterReserved_eq_some_iff.1 hrest
      exact ⟨front, rest, hsplit, hfront, h⟩
  · rintro ⟨front, rest, hsplit, hfront, hends⟩
    rw [afterReserved_eq_some_iff.2 ⟨front, hsplit, hfront⟩]
    exact hends

theorem reserves_cons_slash (reserved cs : List Char) :
    reserves ('/' :: reserved) ('/' :: cs) = reserves reserved cs := by
  unfold reserves
  rw [afterReserved, if_pos rfl]

theorem reserves_lowercase (reserved cs : List Char) :
    reserves (lowercase reserved) cs = reserves reserved cs := by
  rw [Bool.eq_iff_iff, reserves_iff_exists, reserves_iff_exists, lowercase_lowercase]

/-- The slashes at the start of a path count as one. -/
theorem oneSlash_cons (cs : List Char) :
    oneSlash ('/' :: cs) = '/' :: cs.dropWhile (· == '/') := by
  induction cs with
  | nil => rfl
  | cons c cs ih =>
    by_cases hc : c = '/'
    · subst hc
      rw [oneSlash, ih]
      rfl
    · rw [List.dropWhile_cons_of_neg (by simpa using hc), oneSlash]
      rintro rest heq
      exact hc (List.cons.inj (List.cons.inj heq).2).1

/-- A path is protected if it begins with one of the names behind its slashes. -/
theorem isProtected_ofNames_iff (names : List String) (text : String) :
    (ofNames names).isProtected ("/" ++ text) = true ↔
      ∃ name ∈ names, trimmed name ≠ [] ∧
        reserves (trimmed name) (text.toList.dropWhile (· == '/')) = true := by
  have htext : "/" ++ text = .ofList ('/' :: text.toList) := by
    rw [String.ofList_cons, String.ofList_toList]
    rfl
  rw [htext, isProtected_ofList (List.cons_ne_nil _ _), List.any_eq_true]
  constructor
  · rintro ⟨target, hmem, hreserves⟩
    obtain ⟨name, hname, hne, rfl⟩ := mem_targets_ofNames.1 hmem
    rw [String.toList_ofList, oneSlash_cons, reserves_cons_slash, reserves_lowercase] at hreserves
    exact ⟨name, hname, hne, hreserves⟩
  · rintro ⟨name, hname, hne, hreserves⟩
    refine ⟨_, mem_targets_ofNames.2 ⟨name, hname, hne, rfl⟩, ?_⟩
    rw [String.toList_ofList, oneSlash_cons, reserves_cons_slash, reserves_lowercase]
    exact hreserves

/-! ### The first segment -/

/-- A name that is empty or one segment without delimiters. -/
def IsSegmentName (name : String) : Prop :=
  ∀ c ∈ trimmed name, delimits c = false

instance (name : String) : Decidable (IsSegmentName name) :=
  List.decidableBAll _ (trimmed name)

/-- The first segment behind the slashes at the start, up to its first `?`, `#` or `;`. -/
def leadingSegment (cs : List Char) : List Char :=
  (cs.dropWhile (· == '/')).takeWhile fun c => !delimits c

/-- No other character is a delimiter in lower case. -/
theorem delimits_toLower (c : Char) : delimits c.toLower = delimits c := by
  have hother {d : Char} (hsmall : ¬ (97 ≤ d.toNat ∧ d.toNat ≤ 122))
      (hcapital : ¬ (65 ≤ d.toNat ∧ d.toNat ≤ 90)) : (c.toLower == d) = (c == d) := by
    rw [Bool.eq_iff_iff, beq_iff_eq, beq_iff_eq, toLower_eq_iff hsmall]
    exact and_iff_left hcapital
  unfold delimits
  rw [hother (by decide) (by decide), hother (by decide) (by decide),
    hother (by decide) (by decide), hother (by decide) (by decide)]

theorem delimits_of_lowercase_eq {cs ds : List Char} (h : lowercase cs = lowercase ds)
    (hds : ∀ c ∈ ds, delimits c = false) : ∀ c ∈ cs, delimits c = false := by
  intro c hc
  have hmem : c.toLower ∈ lowercase ds := by
    rw [← h]
    exact List.mem_map_of_mem hc
  obtain ⟨d, hd, hsame⟩ := List.mem_map.1 hmem
  rw [← delimits_toLower, ← hsame, delimits_toLower]
  exact hds d hd

/-- A name without delimiters is all that comes before the first delimiter. -/
theorem reserves_iff_takeWhile {name cs : List Char} (hname : ∀ c ∈ name, delimits c = false) :
    reserves name cs = true ↔ sameLetters name (cs.takeWhile fun c => !delimits c) = true := by
  rw [reserves_iff_exists, sameLetters_iff]
  constructor
  · rintro ⟨front, rest, rfl, hfront, hends⟩
    have hall : ∀ c ∈ front, (!delimits c) = true := by
      intro c hc
      rw [delimits_of_lowercase_eq hfront hname c hc]
      rfl
    have hstop : rest.takeWhile (fun c => !delimits c) = [] := by
      cases rest with
      | nil => rfl
      | cons c rest =>
        have hc : delimits c = true := hends
        rw [List.takeWhile_cons_of_neg (by simp [hc])]
    rw [List.takeWhile_append_of_pos hall, hstop, List.append_nil, hfront]
  · intro h
    refine ⟨_, _, (List.takeWhile_append_dropWhile (p := fun c => !delimits c)).symm, h.symm, ?_⟩
    rw [endsSegment_eq_all]
    cases hhead : (cs.dropWhile fun c => !delimits c).head? with
    | none => rfl
    | some c =>
      have hc := List.head?_dropWhile_not (fun c => !delimits c) cs
      rw [hhead] at hc
      simpa using hc

/-! ### Reading by byte offsets -/

/-- Compares a name with the bytes at the start of a path. A path that is too short, or whose
    characters do not end where the name ends, does not begin with the name. Nothing comes of a
    cut inside a character. -/
def reservesAt (reserved path : String) : Option Bool :=
  if path.utf8ByteSize < reserved.utf8ByteSize ∨
      ¬ (String.Pos.Raw.mk reserved.utf8ByteSize).IsValid path then some false
  else
    (cut? path reserved.utf8ByteSize).map fun parts =>
      sameLetters parts.1.toList reserved.toList && endsSegment parts.2.toList

/-- Drops slashes at the start one by one, as long as there are two. -/
def oneSlashAt (path : String) : Option String :=
  if ['/', '/'] <+: path.toList then
    match _hcut : cut? path 1 with
    | none => none
    | some parts => oneSlashAt parts.2
  else some path
termination_by path.utf8ByteSize
decreasing_by
  obtain ⟨hsplit, hsize⟩ := cut?_eq_some_iff.1 _hcut
  rw [hsplit, String.utf8ByteSize_append]
  omega

/-- The reading of a path by byte offsets. -/
def isProtectedAt (t : ProtectedTargets) (path : String) : Option Bool :=
  if path.isEmpty then some false
  else (oneSlashAt path).bind fun rest => t.targets.anyM (reservesAt · rest)

theorem reservesAt_eq (reserved path : String) :
    reservesAt reserved path = some (reserves reserved.toList path.toList) := by
  unfold reservesAt
  split
  · next h =>
    -- a part that is the name up to case would have the size of the name
    have hnot : ¬ reserves reserved.toList path.toList = true := by
      intro hreserves
      obtain ⟨front, rest, hsplit, hfront, -⟩ := reserves_iff_exists.1 hreserves
      have hsize : byteSize front = reserved.utf8ByteSize := by
        rw [byteSize_eq_of_lowercase_eq hfront, byteSize_toList]
      have hpath : path = .ofList front ++ .ofList rest := by
        rw [← String.ofList_append, ← hsplit, String.ofList_toList]
      rcases h with hshort | hinside
      · rw [hpath, String.utf8ByteSize_append] at hshort
        have : (String.ofList front).utf8ByteSize = reserved.utf8ByteSize := hsize
        omega
      · exact hinside (String.Pos.Raw.isValid_iff_exists_append.2
          ⟨_, _, hpath, String.Pos.Raw.ext hsize.symm⟩)
    rw [Bool.not_eq_true] at hnot
    rw [hnot]
  · next h =>
    obtain ⟨-, hvalid⟩ := not_or.1 h
    obtain ⟨front, back, hpath, hsize⟩ :=
      String.Pos.Raw.isValid_iff_exists_append.1 (Decidable.of_not_not hvalid)
    have hsize : front.utf8ByteSize = reserved.utf8ByteSize :=
      (congrArg String.Pos.Raw.byteIdx hsize).symm
    rw [cut?_eq_some_iff.2 ⟨hpath, hsize⟩, Option.map_some, Option.some.injEq, Bool.eq_iff_iff,
      reserves_iff_exists, Bool.and_eq_true, sameLetters_iff]
    constructor
    · rintro ⟨hfront, hends⟩
      exact ⟨front.toList, back.toList, by rw [hpath, String.toList_append], hfront, hends⟩
    · rintro ⟨front', rest, hsplit, hfront, hends⟩
      -- the text has one part of this size before the cut
      rw [hpath, String.toList_append] at hsplit
      obtain ⟨rfl, rfl⟩ := append_inj_of_byteSize hsplit (by
        rw [byteSize_toList, hsize, byteSize_eq_of_lowercase_eq hfront, byteSize_toList])
      exact ⟨hfront, hends⟩

theorem oneSlashAt_eq (path : String) :
    oneSlashAt path = some (.ofList (oneSlash path.toList)) := by
  have hfirst {text : String} {rest : List Char} (h : ['/', '/'] ++ rest = text.toList) :
      cut? text 1 = some ("/", .ofList ('/' :: rest)) := by
    refine cut?_eq_some_iff.2 ⟨?_, rfl⟩
    rw [← String.ofList_toList (s := text), ← h]
    exact String.ofList_cons
  fun_induction oneSlashAt path with
  | case1 path hslashes hcut =>
    -- the first of two slashes can be cut off
    obtain ⟨rest, hpath⟩ := hslashes
    rw [hfirst hpath] at hcut
    cases hcut
  | case2 path hslashes parts hcut ih =>
    obtain ⟨rest, hpath⟩ := hslashes
    rw [hfirst hpath] at hcut
    obtain rfl := Option.some.inj hcut
    rw [ih, ← hpath, String.toList_ofList]
    rfl
  | case3 path hone =>
    have hsame : oneSlash path.toList = path.toList := by
      rw [oneSlash]
      rintro rest heq
      exact hone ⟨rest, heq.symm⟩
    rw [hsame, String.ofList_toList]

theorem anyM_some {α : Type} {p : α → Option Bool} {q : α → Bool} (h : ∀ x, p x = some (q x))
    (l : List α) : l.anyM p = some (l.any q) := by
  obtain rfl : p = fun x => pure (q x) := funext h
  exact List.anyM_pure

/-- The reading by byte offsets cuts no character, and it tells what the reading by characters
    tells. -/
theorem isProtectedAt_eq (t : ProtectedTargets) (path : String) :
    isProtectedAt t path = some (t.isProtected path) := by
  unfold isProtectedAt isProtected
  by_cases hempty : path.isEmpty = true
  · rw [if_pos hempty, hempty]
    rfl
  · rw [if_neg hempty, oneSlashAt_eq, Option.bind_some,
      anyM_some (fun target => reservesAt_eq target _)]
    simp only [String.toList_ofList, hempty, Bool.not_false, Bool.true_and]

/-- A path is protected exactly if its first segment, cut at its first delimiter, is not empty and
    is one of the names but for the case of letters. The bytes of the path are never cut inside a
    character to find out. -/
theorem isProtected_iff_leadingSegment {names : List String}
    (hnames : ∀ name ∈ names, IsSegmentName name) (text : String) :
    ((ofNames names).isProtected ("/" ++ text) = true ↔
        leadingSegment text.toList ≠ [] ∧
          ∃ name ∈ names, List.Forall₂ SameLetter (trimmed name) (leadingSegment text.toList)) ∧
      isProtectedAt (ofNames names) ("/" ++ text) =
        some ((ofNames names).isProtected ("/" ++ text)) := by
  refine ⟨?_, isProtectedAt_eq _ _⟩
  rw [isProtected_ofNames_iff]
  constructor
  · rintro ⟨name, hname, hne, hreserves⟩
    have hsame := sameLetters_iff_forall₂.1 ((reserves_iff_takeWhile (hnames name hname)).1 hreserves)
    refine ⟨fun hnil => ?_, name, hname, hsame⟩
    -- the segment is as long as the name
    have hlength := hsame.length_eq
    unfold leadingSegment at hnil
    rw [hnil] at hlength
    exact hne (List.length_eq_zero_iff.1 hlength)
  · rintro ⟨hne, name, hname, hsame⟩
    refine ⟨name, hname, fun hnil => ?_, ?_⟩
    · rw [hnil] at hsame
      exact hne (List.forall₂_nil_left_iff.1 hsame)
    · exact (reserves_iff_takeWhile (hnames name hname)).2 (sameLetters_iff_forall₂.2 hsame)

/-- A name in capitals with blanks and slashes around it, an empty one and one with an accent. The
    path has one slash more, a segment in mixed case, and a delimiter before a character of
    several bytes. -/
theorem isProtected_iff_leadingSegment_mixed :
    (∀ name ∈ [" /PRIVATE/ ", "", "né"], IsSegmentName name) ∧
      (ofNames [" /PRIVATE/ ", "", "né"]).isProtected ("/" ++ "/Private;né/x") = true ∧
      (ofNames [" /PRIVATE/ ", "", "né"]).isProtected ("/" ++ "NÉ/x") = false := by
  have hnames : ∀ name ∈ [" /PRIVATE/ ", "", "né"], IsSegmentName name := by
    decide
  refine ⟨hnames, ?_, ?_⟩
  · refine (isProtected_iff_leadingSegment hnames "/Private;né/x").1.2 ⟨by decide, ?_⟩
    exact ⟨" /PRIVATE/ ", by decide, by decide⟩
  · rw [Bool.eq_false_iff, Ne, (isProtected_iff_leadingSegment hnames "NÉ/x").1]
    decide

end Hosting.ProtectedTargets
