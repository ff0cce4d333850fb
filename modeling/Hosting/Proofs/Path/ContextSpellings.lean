import Hosting.Proofs.Path.ContextPaths
import Mathlib.Data.List.TakeWhile

/-! # Spellings of context paths

    A context path may be given with blanks around it, with slashes behind it, and without the
    slash that it begins with. What is left when all of these are taken off is the bare text of
    the path, and the path is a slash and this text. A spelling is refused where a star or a blank
    is left inside, or two slashes in a row.

    Two accepted spellings mean one path exactly if they differ at their ends only. In one
    direction, the bare text is what they share. In the other, the bare text of an accepted
    spelling can be read off without knowing where its ends are: it has no blanks, and no slash
    at its ends, so taking all blanks off and then all slashes from the ends gives it.

    - `IsRefused`: what a spelling is refused for.
    - `IsNormal`: what the text of a path looks like.
    - `DifferAtEnds`: spellings with the same text between their ends.
    - `parse_eq_ok_iff`, `parse_eq_error_iff`: what reading comes to.
    - `eq_iff_differAtEnds`: when two spellings mean one path.
-/

namespace Hosting

open Text

/-- A slash in front of a text makes two in a row where the text begins with one. -/
theorem slashes_infix_cons_iff {c : Char} {cs : List Char} :
    ['/', '/'] <:+: c :: cs ↔ (c = '/' ∧ cs.head? = some '/') ∨ ['/', '/'] <:+: cs := by
  rw [List.infix_cons_iff]
  apply or_congr_left
  constructor
  · intro ⟨rest, hrest⟩
    obtain ⟨rfl, rfl⟩ := List.cons.inj hrest
    exact ⟨rfl, rfl⟩
  · intro ⟨hc, hhead⟩
    obtain ⟨rest, hrest⟩ := List.head?_eq_some_iff.1 hhead
    rw [hc, hrest]
    exact ⟨rest, rfl⟩

theorem hasDoubleSlash_iff {cs : List Char} :
    hasDoubleSlash cs = true ↔ ['/', '/'] <:+: cs := by
  fun_induction hasDoubleSlash cs with
  | case1 rest => exact iff_of_true rfl ⟨[], rest, rfl⟩
  | case2 c rest hfirst ih =>
    have hnot : ¬ (c = '/' ∧ rest.head? = some '/') := by
      intro ⟨hc, hhead⟩
      obtain ⟨behind, hbehind⟩ := List.head?_eq_some_iff.1 hhead
      exact hfirst behind hc hbehind
    rw [ih, slashes_infix_cons_iff, or_iff_right hnot]
  | case3 => exact iff_of_false (by decide) (by decide)

namespace ContextPath

/-! ### Bare texts -/

/-- A text without the slash that it begins with. -/
def unrooted (cs : List Char) : List Char :=
  if cs.head? = some '/' then cs.tail else cs

/-- A spelling without the blanks around it. -/
def trimmed (raw : String) : List Char :=
  strip isBlank raw.toList

/-- A spelling without the blanks around it and without the slashes behind it. -/
def shortened (raw : String) : List Char :=
  dropEnd (· == '/') (trimmed raw)

theorem respelled_eq (raw : String) :
    respelled raw.toList = '/' :: unrooted (shortened raw) := by
  have hshort : dropEnd (· == '/') (strip isBlank raw.toList) = shortened raw := rfl
  unfold respelled unrooted
  rw [hshort]
  split
  · next hnil =>
    rw [hnil]
    rfl
  · next rest hrooted =>
    rw [hrooted]
    rfl
  · next hnil hrooted =>
    have hhead : (shortened raw).head? ≠ some '/' := by
      intro hhead
      obtain ⟨rest, hrest⟩ := List.head?_eq_some_iff.1 hhead
      exact hrooted rest hrest
    rw [if_neg hhead]

/-- A spelling is accepted as the path whose text is a slash and the bare text. -/
theorem parse_eq_ok_iff {raw : String} {p : ContextPath} :
    parse raw = .ok p ↔ p.text.toList = '/' :: unrooted (shortened raw) := by
  rw [← respelled_eq]
  unfold parse
  simp only
  constructor
  · intro h
    split at h
    · rw [← Except.ok.inj h, String.toList_ofList]
    · cases h
  · intro h
    have hcanonical := p.canonical
    rw [h] at hcanonical
    rw [dif_pos hcanonical]
    apply congrArg Except.ok
    apply ext_text
    show String.ofList (respelled raw.toList) = p.text
    rw [← h, String.ofList_toList]

theorem parse_eq_error_iff {raw : String} {e : HostError} :
    parse raw = .error e ↔
      isCanonicalContext ('/' :: unrooted (shortened raw)) = false ∧
        e = .invalidContextPath raw := by
  rw [← respelled_eq]
  unfold parse
  simp only
  by_cases hcanonical : isCanonicalContext (respelled raw.toList) = true
  · rw [dif_pos hcanonical, hcanonical]
    simp
  · rw [dif_neg hcanonical, Except.error.injEq, Bool.eq_false_iff.2 hcanonical]
    simp [eq_comm]

/-! ### Texts of paths, and texts that are refused -/

/-- The text of a path: the root, or what begins but does not end with a slash and has no star, no
    blank and no two slashes in a row. -/
def IsNormal (cs : List Char) : Prop :=
  cs = ['/'] ∨ cs.head? = some '/' ∧ cs.getLast? ≠ some '/' ∧ ¬ ['/', '/'] <:+: cs ∧
    '*' ∉ cs ∧ ∀ c ∈ cs, isBlank c = false

/-- Between its ends, the spelling has a star, a blank, or two slashes in a row. -/
def IsRefused (raw : String) : Prop :=
  '*' ∈ trimmed raw ∨ (∃ c ∈ trimmed raw, isBlank c = true) ∨ ['/', '/'] <:+: shortened raw

theorem isCanonicalContext_iff {cs : List Char} : isCanonicalContext cs = true ↔ IsNormal cs := by
  have hall : (cs.all fun c => c != '*' && !isBlank c) = true ↔
      '*' ∉ cs ∧ ∀ c ∈ cs, isBlank c = false := by
    rw [List.all_eq_true]
    constructor
    · intro h
      refine ⟨fun hstar => ?_, fun c hc => ?_⟩
      · have hneither := h '*' hstar
        contradiction
      · have hneither := h c hc
        simp only [Bool.and_eq_true, Bool.not_eq_true'] at hneither
        exact hneither.2
    · intro ⟨hstar, hblank⟩ c hc
      have hne : c ≠ '*' := by
        intro heq
        rw [heq] at hc
        exact hstar hc
      simp [hne, hblank c hc]
  unfold isCanonicalContext IsNormal
  rw [Bool.or_eq_true, Bool.and_eq_true, Bool.and_eq_true, Bool.and_eq_true, hall,
    Bool.not_eq_true', ← Bool.not_eq_true, hasDoubleSlash_iff]
  simp only [beq_iff_eq, bne_iff_ne, ne_eq, and_assoc]

/-- No slash is left at the end of a shortened spelling. -/
theorem getLast?_shortened (raw : String) : (shortened raw).getLast? ≠ some '/' := by
  intro h
  have hnot := dropEnd_getLast h
  contradiction

/-- Apart from slashes, a shortened spelling has the characters of the trimmed one. -/
theorem mem_shortened_iff {raw : String} {c : Char} (hc : c ≠ '/') :
    c ∈ shortened raw ↔ c ∈ trimmed raw := by
  obtain ⟨run, htrimmed, hrun⟩ := dropEnd_append (· == '/') (trimmed raw)
  have hnot : c ∉ run := by
    intro hmem
    exact hc (beq_iff_eq.1 (hrun c hmem))
  rw [htrimmed, List.mem_append, or_iff_left hnot]
  exact Iff.rfl

theorem ne_slash_of_isBlank {c : Char} (h : isBlank c = true) : c ≠ '/' := by
  intro heq
  rw [heq] at h
  contradiction

theorem mem_rooted_iff {c : Char} {cs : List Char} (hc : c ≠ '/') :
    c ∈ '/' :: unrooted cs ↔ c ∈ cs := by
  unfold unrooted
  by_cases hhead : cs.head? = some '/'
  · obtain ⟨rest, rfl⟩ := List.head?_eq_some_iff.1 hhead
    rw [if_pos hhead, List.tail_cons]
  · rw [if_neg hhead, List.mem_cons, or_iff_right hc]

theorem slashes_infix_rooted_iff {cs : List Char} :
    ['/', '/'] <:+: '/' :: unrooted cs ↔ ['/', '/'] <:+: cs := by
  unfold unrooted
  by_cases hhead : cs.head? = some '/'
  · obtain ⟨rest, rfl⟩ := List.head?_eq_some_iff.1 hhead
    rw [if_pos hhead, List.tail_cons]
  · rw [if_neg hhead, slashes_infix_cons_iff, or_iff_right (fun h => hhead h.2)]

/-- A slash at the end of the path is the only one, and comes of a spelling of which nothing is
    left. -/
theorem getLast?_rooted {cs : List Char} (hlast : cs.getLast? ≠ some '/')
    (hslash : ('/' :: unrooted cs).getLast? = some '/') : '/' :: unrooted cs = ['/'] := by
  unfold unrooted at hslash ⊢
  by_cases hhead : cs.head? = some '/'
  · obtain ⟨rest, rfl⟩ := List.head?_eq_some_iff.1 hhead
    rw [if_pos hhead, List.tail_cons] at hslash
    exact absurd hslash hlast
  · rw [if_neg hhead] at hslash ⊢
    cases cs with
    | nil => rfl
    | cons c rest =>
      rw [List.getLast?_cons_cons] at hslash
      exact absurd hslash hlast

/-- What is refused is what does not come to the text of a path. -/
theorem isNormal_rooted_iff (raw : String) :
    IsNormal ('/' :: unrooted (shortened raw)) ↔ ¬ IsRefused raw := by
  have hstar : '*' ∈ '/' :: unrooted (shortened raw) ↔ '*' ∈ trimmed raw :=
    (mem_rooted_iff (by decide)).trans (mem_shortened_iff (by decide))
  have hblank : (∃ c ∈ '/' :: unrooted (shortened raw), isBlank c = true) ↔
      ∃ c ∈ trimmed raw, isBlank c = true := by
    apply exists_congr
    intro c
    apply and_congr_left
    intro hc
    have hne := ne_slash_of_isBlank hc
    exact (mem_rooted_iff hne).trans (mem_shortened_iff hne)
  have hrefused : IsRefused raw ↔ '*' ∈ '/' :: unrooted (shortened raw) ∨
      (∃ c ∈ '/' :: unrooted (shortened raw), isBlank c = true) ∨
        ['/', '/'] <:+: '/' :: unrooted (shortened raw) := by
    unfold IsRefused
    rw [hstar, hblank, slashes_infix_rooted_iff]
  rw [hrefused, not_or, not_or, not_exists]
  constructor
  · intro h
    rcases h with hroot | ⟨-, -, hslashes, hnostar, hnoblank⟩
    · rw [hroot]
      refine ⟨by decide, ?_, by decide⟩
      intro c ⟨hc, hc'⟩
      exact ne_slash_of_isBlank hc' (List.mem_singleton.1 hc)
    · refine ⟨hnostar, ?_, hslashes⟩
      intro c ⟨hc, hc'⟩
      rw [hnoblank c hc] at hc'
      cases hc'
  · intro ⟨hnostar, hnoblank, hslashes⟩
    by_cases hlast : ('/' :: unrooted (shortened raw)).getLast? = some '/'
    · exact .inl (getLast?_rooted (getLast?_shortened raw) hlast)
    · refine .inr ⟨rfl, hlast, hslashes, hnostar, ?_⟩
      intro c hc
      exact Bool.eq_false_iff.2 fun hc' => hnoblank c ⟨hc, hc'⟩

theorem exists_parse_ok_iff {raw : String} : (∃ p, parse raw = .ok p) ↔ ¬ IsRefused raw := by
  rw [← isNormal_rooted_iff, ← isCanonicalContext_iff]
  constructor
  · intro ⟨p, hp⟩
    rw [← parse_eq_ok_iff.1 hp]
    exact p.canonical
  · intro hcanonical
    let p : ContextPath :=
      ⟨.ofList ('/' :: unrooted (shortened raw)), by rw [String.toList_ofList]; exact hcanonical⟩
    have htext : p.text.toList = '/' :: unrooted (shortened raw) := String.toList_ofList
    exact ⟨p, parse_eq_ok_iff.2 htext⟩

theorem isNormal_text (p : ContextPath) : IsNormal p.text.toList :=
  isCanonicalContext_iff.1 p.canonical

/-! ### Ends that do not count -/

/-- The spelling is the text with blanks around it, with a slash before the text or without, and
    with slashes behind it. -/
def Spells (bare cs : List Char) : Prop :=
  ∃ before lead slashes behind, cs = before ++ (lead ++ (bare ++ slashes) ++ behind) ∧
    (∀ c ∈ before, isBlank c = true) ∧ (lead = [] ∨ lead = ['/']) ∧ (∀ c ∈ slashes, c = '/') ∧
    ∀ c ∈ behind, isBlank c = true

/-- The spellings have the same text between blanks around them, one slash before it, which may be
    missing, and slashes behind it. -/
def DifferAtEnds (raw raw' : String) : Prop :=
  ∃ bare, Spells bare raw.toList ∧ Spells bare raw'.toList

/-- Every spelling is its bare text with ends that do not count. -/
theorem spells_unrooted (raw : String) : Spells (unrooted (shortened raw)) raw.toList := by
  obtain ⟨before, behind, hraw, hbefore, hbehind⟩ := exists_around isBlank raw.toList
  obtain ⟨slashes, htrimmed, hslashes⟩ := dropEnd_append (· == '/') (trimmed raw)
  obtain ⟨lead, hlead, hshort⟩ : ∃ lead, (lead = [] ∨ lead = ['/']) ∧
      shortened raw = lead ++ unrooted (shortened raw) := by
    unfold unrooted
    by_cases hhead : (shortened raw).head? = some '/'
    · obtain ⟨rest, hrest⟩ := List.head?_eq_some_iff.1 hhead
      rw [if_pos hhead, hrest]
      exact ⟨['/'], .inr rfl, rfl⟩
    · rw [if_neg hhead]
      exact ⟨[], .inl rfl, rfl⟩
  refine ⟨before, lead, slashes, behind, ?_, hbefore, hlead, ?_, hbehind⟩
  · calc raw.toList = before ++ (trimmed raw ++ behind) := hraw
      _ = before ++ (shortened raw ++ slashes ++ behind) := by rw [htrimmed]; rfl
      _ = before ++ (lead ++ (unrooted (shortened raw) ++ slashes) ++ behind) := by
        rw [← List.append_assoc lead, ← hshort]
  · intro c hc
    exact beq_iff_eq.1 (hslashes c hc)

/-- A text without its blanks, and without slashes at its ends. -/
def squeezed (cs : List Char) : List Char :=
  strip (· == '/') (cs.filter fun c => !isBlank c)

/-- Ends that do not count are squeezed out. -/
theorem squeezed_of_spells {bare cs : List Char} (h : Spells bare cs) :
    squeezed cs = squeezed bare := by
  obtain ⟨before, lead, slashes, behind, rfl, hbefore, hlead, hslashes, hbehind⟩ := h
  have hnone {run : List Char} (hrun : ∀ c ∈ run, isBlank c = true) :
      (run.filter fun c => !isBlank c) = [] := by
    apply List.filter_eq_nil_iff.2
    intro c hc
    rw [hrun c hc]
    decide
  have hall {run : List Char} (hrun : ∀ c ∈ run, c = '/') :
      (run.filter fun c => !isBlank c) = run := by
    apply List.filter_eq_self.2
    intro c hc
    rw [hrun c hc]
    decide
  have hleading : ∀ c ∈ lead, c = '/' := by
    rcases hlead with hnil | hslash
    · rw [hnil]
      simp
    · rw [hslash]
      simp
  unfold squeezed
  rw [List.filter_append, List.filter_append, List.filter_append, List.filter_append, hnone hbefore,
    hnone hbehind, hall hleading, hall hslashes, List.nil_append, List.append_nil]
  apply strip_around
  · intro c hc
    exact beq_iff_eq.2 (hleading c hc)
  · intro c hc
    exact beq_iff_eq.2 (hslashes c hc)

/-- The text of a path has nothing to squeeze out but its first slash. -/
theorem squeezed_unrooted {cs : List Char} (h : IsNormal ('/' :: cs)) : squeezed cs = cs := by
  rcases h with hroot | ⟨-, hlast, hslashes, -, hblank⟩
  · rw [(List.cons.inj hroot).2]
    rfl
  · have hfilter : (cs.filter fun c => !isBlank c) = cs := by
      apply List.filter_eq_self.2
      intro c hc
      rw [hblank c (List.mem_cons_of_mem _ hc)]
      decide
    unfold squeezed
    rw [hfilter]
    apply strip_of_ends
    · intro c hc
      apply beq_eq_false_iff_ne.2
      intro heq
      rw [heq] at hc
      exact hslashes (slashes_infix_cons_iff.2 (.inl ⟨rfl, hc⟩))
    · intro c hc
      apply beq_eq_false_iff_ne.2
      intro heq
      apply hlast
      rw [List.getLast?_cons, hc, heq]
      rfl

/-- Two accepted spellings mean one path exactly if they differ at their ends only. -/
theorem eq_iff_differAtEnds {raw raw' : String} {p p' : ContextPath} (h : parse raw = .ok p)
    (h' : parse raw' = .ok p') : p = p' ↔ DifferAtEnds raw raw' := by
  have htext := parse_eq_ok_iff.1 h
  have htext' := parse_eq_ok_iff.1 h'
  constructor
  · intro heq
    -- one path has one bare text
    have hbare : unrooted (shortened raw) = unrooted (shortened raw') := by
      rw [heq, htext'] at htext
      exact (List.cons.inj htext).2.symm
    have hspells' := spells_unrooted raw'
    rw [← hbare] at hspells'
    exact ⟨_, spells_unrooted raw, hspells'⟩
  · intro ⟨bare, hspells, hspells'⟩
    have hnormal := p.isNormal_text
    have hnormal' := p'.isNormal_text
    rw [htext] at hnormal
    rw [htext'] at hnormal'
    have hbare : unrooted (shortened raw) = unrooted (shortened raw') := by
      calc unrooted (shortened raw) = squeezed (unrooted (shortened raw)) :=
            (squeezed_unrooted hnormal).symm
        _ = squeezed raw.toList := (squeezed_of_spells (spells_unrooted raw)).symm
        _ = squeezed bare := squeezed_of_spells hspells
        _ = squeezed raw'.toList := (squeezed_of_spells hspells').symm
        _ = squeezed (unrooted (shortened raw')) := squeezed_of_spells (spells_unrooted raw')
        _ = unrooted (shortened raw') := squeezed_unrooted hnormal'
    apply ext_text
    apply String.toList_inj.1
    rw [htext, htext', hbare]

end ContextPath

end Hosting
