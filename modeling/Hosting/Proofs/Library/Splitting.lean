import Hosting.Proofs.Library.Tokens
import Mathlib.Data.List.Forall2

/-! # Splitting a classpath text

    The delimiters of a classpath text divide it into runs. What is left of a run without the
    blanks around it is a token, if anything is left. So the tokens can be put together again in
    many ways, with any blanks and delimiters around them and at least one delimiter between two
    of them, and all of these texts are split into the same tokens. There are no others, which
    means that nothing but blanks and delimiters gets lost.

    A delimiter can be a blank itself, and a blank that is none can stand inside a token.

    - `Runs`, `IsCore`: the runs of a text, and what is left of one.
    - `IsLaidOut`: tokens with blanks and delimiters around them.
    - `isSplit_iff`, `isLaidOut_iff`: what the splitting of a text comes to.
    - `split_inverts_joining`: both, for the delimiters of a configuration.
-/

namespace Hosting.Classpath

open Text

variable {p : Char → Bool} {sep : Char → Prop} {cs run token gap : List Char}
  {runs tokens : List (List Char)}

/-! ### Runs between delimiters -/

/-- The runs of a text between delimiters, in order. A run goes on until a delimiter or the end of
    the text follows, so it cannot be longer. -/
inductive Runs (sep : Char → Prop) : List Char → List (List Char) → Prop where
  /-- No delimiter is left. -/
  | last (run : List Char) : (∀ ch ∈ run, ¬ sep ch) → Runs sep run [run]
  /-- A delimiter follows, and the other runs come behind it. -/
  | cons (run : List Char) (ch : Char) (rest : List Char) (runs : List (List Char)) :
      (∀ ch ∈ run, ¬ sep ch) → sep ch → Runs sep rest runs →
      Runs sep (run ++ ch :: rest) (run :: runs)

/-- A character that is no delimiter belongs to the run behind it. -/
theorem Runs.extend {ch : Char} (hch : ¬ sep ch) (h : Runs sep cs (run :: runs)) :
    Runs sep (ch :: cs) ((ch :: run) :: runs) := by
  have hrun (hall : ∀ d ∈ run, ¬ sep d) : ∀ d ∈ ch :: run, ¬ sep d :=
    List.forall_mem_cons.2 ⟨hch, hall⟩
  cases h with
  | last _ hall => exact .last _ (hrun hall)
  | cons _ d rest _ hall hd hrest => exact .cons (ch :: run) d rest runs (hrun hall) hd hrest

theorem runs_pieces (p : Char → Bool) (cs : List Char) : Runs (p · = true) cs (pieces p cs) := by
  induction cs with
  | nil => exact .last [] (by simp)
  | cons ch cs ih =>
    rw [pieces]
    by_cases hch : p ch = true
    · rw [if_pos hch]
      exact .cons [] ch cs _ (by simp) hch ih
    · rw [if_neg hch]
      cases hpieces : pieces p cs with
      | nil => exact absurd hpieces (pieces_ne_nil p cs)
      | cons run runs =>
        rw [hpieces] at ih
        exact ih.extend hch

theorem runs_iff : Runs (p · = true) cs runs ↔ pieces p cs = runs := by
  constructor
  · intro h
    induction h with
    | last run hall => exact pieces_of_not_sep (by simpa using hall)
    | cons run ch rest runs hall hch _ ih =>
      rw [pieces_append_sep rest (by simpa using hall) hch, ih]
  · rintro rfl
    exact runs_pieces p cs

/-- What is left of a run without the blanks around it. -/
def IsCore (run core : List Char) : Prop :=
  ∃ before behind, run = before ++ (core ++ behind) ∧ (∀ ch ∈ before, isBlank ch = true) ∧
    (∀ ch ∈ behind, isBlank ch = true) ∧ IsTrimmed core

theorem isCore_strip (run : List Char) : IsCore run (strip isBlank run) := by
  obtain ⟨before, behind, hsplit, hbefore, hbehind⟩ := exists_around isBlank run
  exact ⟨before, behind, hsplit, hbefore, hbehind, isTrimmed_strip run⟩

theorem isCore_iff {core : List Char} : IsCore run core ↔ strip isBlank run = core := by
  constructor
  · rintro ⟨before, behind, rfl, hbefore, hbehind, htrimmed⟩
    rw [strip_around hbefore core hbehind, strip_of_isTrimmed htrimmed]
  · rintro rfl
    exact isCore_strip run

/-- The tokens of a text are what is left of its runs, where something is left. -/
def IsSplit (sep : Char → Prop) (cs : List Char) (tokens : List (List Char)) : Prop :=
  ∃ runs cores, Runs sep cs runs ∧ List.Forall₂ IsCore runs cores ∧
    tokens = cores.filter (· ≠ [])

/-- The tokens that splitting finds in a text. -/
def tokensOf (p : Char → Bool) (cs : List Char) : List (List Char) :=
  ((pieces p cs).map (strip isBlank)).filter (· ≠ [])

theorem split_eq (c : Classpath) (raw : String) :
    c.split raw = (tokensOf c.delimiters.contains raw.toList).map String.ofList := rfl

theorem forall₂_isCore_iff {cores : List (List Char)} :
    List.Forall₂ IsCore runs cores ↔ runs.map (strip isBlank) = cores := by
  have hcore : IsCore = fun run core => strip isBlank run = core := by
    funext run core
    exact propext isCore_iff
  rw [hcore, ← List.forall₂_map_left_iff, List.forall₂_eq_eq_eq]

theorem isSplit_iff : IsSplit (p · = true) cs tokens ↔ tokensOf p cs = tokens := by
  unfold IsSplit tokensOf
  constructor
  · rintro ⟨runs, cores, hruns, hcores, rfl⟩
    rw [runs_iff.1 hruns, forall₂_isCore_iff.1 hcores]
  · rintro rfl
    exact ⟨_, _, runs_pieces p cs, forall₂_isCore_iff.2 rfl, rfl⟩

/-! ### Tokens laid out in a text -/

/-- Blanks and delimiters. -/
def IsGap (sep : Char → Prop) (gap : List Char) : Prop :=
  ∀ ch ∈ gap, sep ch ∨ isBlank ch = true

instance [DecidablePred sep] (gap : List Char) : Decidable (IsGap sep gap) :=
  List.decidableBAll (fun ch => sep ch ∨ isBlank ch = true) gap

/-- A text that can be a token: neither empty nor with blanks around it, and without delimiters. -/
structure IsToken (sep : Char → Prop) (token : List Char) : Prop where
  ne_nil : token ≠ []
  trimmed : IsTrimmed token
  no_delimiter : ∀ ch ∈ token, ¬ sep ch

theorem isToken_iff :
    IsToken sep token ↔ token ≠ [] ∧ IsTrimmed token ∧ ∀ ch ∈ token, ¬ sep ch :=
  ⟨fun h => ⟨h.ne_nil, h.trimmed, h.no_delimiter⟩, fun h => ⟨h.1, h.2.1, h.2.2⟩⟩

instance [DecidablePred sep] (token : List Char) : Decidable (IsToken sep token) :=
  have : Decidable (∀ ch ∈ token, ¬ sep ch) := List.decidableBAll (fun ch => ¬ sep ch) token
  decidable_of_decidable_of_iff isToken_iff.symm

/-- The text begins with the first token, and each token has a gap behind it. Before another token
    the gap has a delimiter. -/
inductive IsLined (sep : Char → Prop) : List (List Char) → List Char → Prop where
  | nil : IsLined sep [] []
  | cons (token gap : List Char) (tokens : List (List Char)) (rest : List Char) :
      IsToken sep token → IsGap sep gap → (tokens ≠ [] → ∃ ch ∈ gap, sep ch) →
      IsLined sep tokens rest → IsLined sep (token :: tokens) (token ++ (gap ++ rest))

/-- The text is made of these tokens, with blanks and delimiters around them and a delimiter
    between any two of them. -/
def IsLaidOut (sep : Char → Prop) (tokens : List (List Char)) (cs : List Char) : Prop :=
  ∃ lead rest, cs = lead ++ rest ∧ IsGap sep lead ∧ IsLined sep tokens rest

/-! ### From a text to its tokens -/

theorem tokensOf_of_not_sep (hrun : ∀ ch ∈ run, ¬ p ch = true) :
    tokensOf p run = [strip isBlank run].filter (· ≠ []) := by
  unfold tokensOf
  rw [pieces_of_not_sep (by simpa using hrun), List.map_singleton]

theorem tokensOf_append_sep {ch : Char} (hrun : ∀ ch ∈ run, ¬ p ch = true) (hch : p ch = true)
    (rest : List Char) : tokensOf p (run ++ ch :: rest) = tokensOf p run ++ tokensOf p rest := by
  rw [tokensOf_of_not_sep hrun]
  unfold tokensOf
  rw [pieces_append_sep rest (by simpa using hrun) hch, List.map_cons, ← List.singleton_append,
    List.filter_append]

/-- What stands before the first token makes no difference. -/
theorem tokensOf_gap_append (hgap : IsGap (p · = true) gap) (cs : List Char) :
    tokensOf p (gap ++ cs) = tokensOf p cs := by
  induction gap with
  | nil => rfl
  | cons ch gap ih =>
    have hrest := ih fun d hd => hgap d (List.mem_cons_of_mem ch hd)
    rw [List.cons_append, ← hrest]
    by_cases hch : p ch = true
    · -- the run before the delimiter is empty
      have hempty : ∀ d ∈ ([] : List Char), ¬ p d = true := by simp
      exact tokensOf_append_sep hempty hch _
    · have hblank := (hgap ch List.mem_cons_self).resolve_left hch
      unfold tokensOf
      rw [pieces, if_neg hch]
      cases hpieces : pieces p (gap ++ cs) with
      | nil => exact absurd hpieces (pieces_ne_nil p _)
      | cons run runs =>
        -- the blank is trimmed off the run behind it
        have hstrip : strip isBlank (ch :: run) = strip isBlank run := by
          unfold strip
          rw [List.dropWhile_cons_of_pos hblank]
        simp only [List.map_cons, hstrip]

/-- A token with blanks behind it. -/
theorem tokensOf_token {behind : List Char} (htoken : IsToken (p · = true) token)
    (hplain : ∀ ch ∈ behind, ¬ p ch = true) (hblank : ∀ ch ∈ behind, isBlank ch = true) :
    tokensOf p (token ++ behind) = [token] := by
  have hstrip : strip isBlank (token ++ behind) = token := by
    have hnone : ∀ ch ∈ ([] : List Char), isBlank ch = true := by simp
    rw [← List.nil_append (token ++ behind), strip_around hnone token hblank,
      strip_of_isTrimmed htoken.trimmed]
  have hrun : ∀ ch ∈ token ++ behind, ¬ p ch = true :=
    List.forall_mem_append.2 ⟨htoken.no_delimiter, hplain⟩
  rw [tokensOf_of_not_sep hrun, hstrip, List.filter_cons_of_pos (by simpa using htoken.ne_nil),
    List.filter_nil]

/-- The first delimiter of a gap ends the token before it. -/
theorem tokensOf_token_append (htoken : IsToken (p · = true) token)
    (hgap : IsGap (p · = true) gap) (hsep : ∃ ch ∈ gap, p ch = true) (rest : List Char) :
    tokensOf p (token ++ (gap ++ rest)) = token :: tokensOf p rest := by
  obtain ⟨ch, hfind⟩ := Option.isSome_iff_exists.1 (List.find?_isSome.2 hsep)
  obtain ⟨hch, blanks, more, rfl, hblanks⟩ := List.find?_eq_some_iff_append.1 hfind
  have hplain : ∀ d ∈ blanks, ¬ p d = true := by simpa using hblanks
  have hblank : ∀ d ∈ blanks, isBlank d = true := by
    intro d hd
    exact (hgap d (List.mem_append_left _ hd)).resolve_left (hplain d hd)
  have hmore : IsGap (p · = true) more := fun d hd => hgap d (by simp [hd])
  have hrun : ∀ d ∈ token ++ blanks, ¬ p d = true :=
    List.forall_mem_append.2 ⟨htoken.no_delimiter, hplain⟩
  calc tokensOf p (token ++ (blanks ++ ch :: more ++ rest))
      = tokensOf p (token ++ blanks ++ ch :: (more ++ rest)) := by simp
    _ = tokensOf p (token ++ blanks) ++ tokensOf p (more ++ rest) :=
        tokensOf_append_sep hrun hch _
    _ = token :: tokensOf p rest := by
        rw [tokensOf_token htoken hplain hblank, tokensOf_gap_append hmore, List.singleton_append]

theorem IsLined.tokensOf_eq (h : IsLined (p · = true) tokens cs) : tokensOf p cs = tokens := by
  induction h with
  | nil => rfl
  | cons token gap tokens rest htoken hgap hsep hrest ih =>
    by_cases hany : ∃ ch ∈ gap, p ch = true
    · rw [tokensOf_token_append htoken hgap hany, ih]
    · -- no other token follows, and the gap has blanks only
      have hlast : tokens = [] := Classical.not_not.1 fun hne => hany (hsep hne)
      subst hlast
      cases hrest
      have hplain : ∀ ch ∈ gap, ¬ p ch = true := fun ch hch hp => hany ⟨ch, hch, hp⟩
      rw [List.append_nil]
      exact tokensOf_token htoken hplain fun ch hch => (hgap ch hch).resolve_left (hplain ch hch)

/-! ### From the runs of a text to its layout -/

theorem isGap_of_blank {blanks : List Char} (h : ∀ ch ∈ blanks, isBlank ch = true) :
    IsGap sep blanks := fun ch hch => .inr (h ch hch)

theorem IsGap.append {gap' : List Char} (h : IsGap sep gap) (h' : IsGap sep gap') :
    IsGap sep (gap ++ gap') :=
  List.forall_mem_append.2 ⟨h, h'⟩

theorem IsLaidOut.gap_append (hgap : IsGap sep gap) (h : IsLaidOut sep tokens cs) :
    IsLaidOut sep tokens (gap ++ cs) := by
  obtain ⟨lead, rest, rfl, hlead, hrest⟩ := h
  exact ⟨gap ++ lead, rest, (List.append_assoc gap lead rest).symm, hgap.append hlead, hrest⟩

theorem IsLaidOut.token_append (htoken : IsToken sep token) (hgap : IsGap sep gap)
    (hsep : tokens ≠ [] → ∃ ch ∈ gap, sep ch) (h : IsLaidOut sep tokens cs) :
    IsLaidOut sep (token :: tokens) (token ++ (gap ++ cs)) := by
  obtain ⟨lead, rest, rfl, hlead, hrest⟩ := h
  refine ⟨[], token ++ (gap ++ lead ++ rest), by simp, by simp [IsGap], ?_⟩
  refine .cons token (gap ++ lead) tokens rest htoken (hgap.append hlead) (fun hne => ?_) hrest
  obtain ⟨ch, hch, hdelimiter⟩ := hsep hne
  exact ⟨ch, List.mem_append_left lead hch, hdelimiter⟩

/-- A run in front adds what is left of it, if anything is. -/
theorem IsLaidOut.run_append {core : List Char} (hcore : IsCore run core)
    (hplain : ∀ ch ∈ run, ¬ sep ch) (hgap : IsGap sep gap)
    (hsep : tokens ≠ [] → ∃ ch ∈ gap, sep ch) (h : IsLaidOut sep tokens cs) :
    IsLaidOut sep ([core].filter (· ≠ []) ++ tokens) (run ++ (gap ++ cs)) := by
  obtain ⟨before, behind, rfl, hbefore, hbehind, htrimmed⟩ := hcore
  have hfront : IsGap sep before := isGap_of_blank hbefore
  have hback : IsGap sep (behind ++ gap) := (isGap_of_blank hbehind).append hgap
  have hsplit : before ++ (core ++ behind) ++ (gap ++ cs) =
      before ++ (core ++ (behind ++ gap ++ cs)) := by simp
  rw [hsplit]
  by_cases hnone : core = []
  · subst hnone
    exact (h.gap_append hback).gap_append hfront
  · have htoken : IsToken sep core :=
      ⟨hnone, htrimmed, fun ch hch => hplain ch (by simp [hch])⟩
    rw [List.filter_cons_of_pos (by simpa using hnone), List.filter_nil, List.singleton_append]
    refine (h.token_append htoken hback fun hne => ?_).gap_append hfront
    obtain ⟨ch, hch, hdelimiter⟩ := hsep hne
    exact ⟨ch, List.mem_append_right behind hch, hdelimiter⟩

theorem isLaidOut_of_isSplit (h : IsSplit sep cs tokens) : IsLaidOut sep tokens cs := by
  obtain ⟨runs, cores, hruns, hcores, rfl⟩ := h
  induction hruns generalizing cores with
  | last run hplain =>
    cases hcores with
    | cons hcore hrest =>
      cases hrest
      have hnone : IsLaidOut sep [] [] := ⟨[], [], rfl, by simp [IsGap], .nil⟩
      have hgap : IsGap sep [] := by simp [IsGap]
      have hrun := hnone.run_append hcore hplain hgap (by simp)
      simpa using hrun
  | cons run ch rest runs hplain hch _ ih =>
    cases hcores with
    | @cons _ core _ cores hcore hrest =>
      have hgap : IsGap sep [ch] := by simpa [IsGap] using .inl hch
      have hrun := (ih cores hrest).run_append hcore hplain hgap fun _ => ⟨ch, by simp, hch⟩
      rwa [← List.filter_append] at hrun

/-- The layouts of some tokens are the texts that are split into them. -/
theorem isLaidOut_iff : IsLaidOut (p · = true) tokens cs ↔ tokensOf p cs = tokens := by
  constructor
  · rintro ⟨lead, rest, rfl, hlead, hrest⟩
    rw [tokensOf_gap_append hlead, hrest.tokensOf_eq]
  · intro h
    exact isLaidOut_of_isSplit (isSplit_iff.2 h)

theorem IsLined.isToken (h : IsLined sep tokens cs) : ∀ token ∈ tokens, IsToken sep token := by
  induction h with
  | nil => simp
  | cons _ _ _ _ htoken _ _ _ ih => exact List.forall_mem_cons.2 ⟨htoken, ih⟩

/-! ### Configured delimiters -/

/-- The character divides the classpath texts of a configuration: it is one of the delimiters, or
    a comma where none are configured. -/
def Delimits (configured : String) (ch : Char) : Prop :=
  ch ∈ configured.toList ∨ configured = "" ∧ ch = ','

instance (configured : String) (ch : Char) : Decidable (Delimits configured ch) :=
  inferInstanceAs (Decidable (_ ∨ _))

theorem contains_delimiters (extensions : List String) (configured : String) :
    (fun ch => (ofSettings extensions configured).delimiters.contains ch = true) =
      Delimits configured := by
  funext ch
  apply propext
  unfold ofSettings Delimits
  rw [List.contains_iff_mem]
  by_cases hnone : configured = ""
  · simp [hnone]
  · simp [hnone]

theorem split_eq_iff (c : Classpath) (raw : String) (tokens : List String) :
    c.split raw = tokens ↔
      tokensOf c.delimiters.contains raw.toList = tokens.map String.toList := by
  rw [split_eq]
  constructor
  · rintro rfl
    simp
  · intro h
    rw [h]
    simp

/-- The tokens of a classpath text are what is left of its runs between delimiters without the
    blanks around them, in order and where something is left, so no token has a delimiter. They
    are the tokens that the text was made of, whichever delimiters were put between them and
    whatever blanks and delimiters besides; and every text is made of its tokens in this way.
    Where no delimiters are configured, the comma is one. -/
theorem split_inverts_joining (extensions : List String) (configured raw : String)
    (tokens : List String) :
    ((ofSettings extensions configured).split raw = tokens ↔
        IsSplit (Delimits configured) raw.toList (tokens.map String.toList)) ∧
      ((ofSettings extensions configured).split raw = tokens ↔
        IsLaidOut (Delimits configured) (tokens.map String.toList) raw.toList) ∧
      (∀ token ∈ (ofSettings extensions configured).split raw,
        ∀ ch, Delimits configured ch → ch ∉ token.toList) ∧
      (ofSettings extensions "").split raw = (ofSettings extensions ",").split raw := by
  rw [split_eq_iff, ← contains_delimiters extensions configured, isSplit_iff, isLaidOut_iff]
  refine ⟨Iff.rfl, Iff.rfl, ?_, rfl⟩
  intro token htoken ch hch hmem
  obtain ⟨lead, rest, -, -, hlined⟩ := isLaidOut_iff.2 ((split_eq_iff _ raw _).1 rfl)
  exact (hlined.isToken _ (List.mem_map_of_mem htoken)).no_delimiter ch hmem hch

/-- One of the delimiters is a blank and the other one takes several bytes. Blanks that are no
    delimiters stand inside a token and around it. -/
theorem split_inverts_joining_mixed :
    (ofSettings ["jar"] " →").split "\u00a0→ a\u3000é.jar\t → →→ext/*→\n" =
        ["a\u3000é.jar", "ext/*"] ∧
      ∀ ch, Delimits " →" ch → ch ∉ "a\u3000é.jar".toList := by
  have hlined : IsLined (Delimits " →") ["a\u3000é.jar".toList, "ext/*".toList]
      ("a\u3000é.jar".toList ++ ("\t → →→".toList ++ ("ext/*".toList ++ ("→\n".toList ++ [])))) := by
    refine .cons _ _ _ _ (by decide) (by decide) (fun _ => ⟨'→', by decide, by decide⟩) ?_
    exact .cons _ _ _ _ (by decide) (by decide) (by simp) .nil
  obtain ⟨-, hlaidOut, hfree, -⟩ := split_inverts_joining ["jar"] " →"
    "\u00a0→ a\u3000é.jar\t → →→ext/*→\n" ["a\u3000é.jar", "ext/*"]
  have hsplit := hlaidOut.2 ⟨"\u00a0→ ".toList, _, by decide, by decide, hlined⟩
  refine ⟨hsplit, hfree _ ?_⟩
  rw [hsplit]
  exact List.mem_cons_self

end Hosting.Classpath
