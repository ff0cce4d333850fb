import Hosting.Proofs.Library.Listings
import Hosting.Proofs.Text.Trimming

/-! # Tokens of a classpath

    A token points at one path, or with a star at the archives in one directory. The slashes at
    its end, of either direction, are not part of the path, and nor are those before the star.
    Where the base does not start at the root, it starts at the working directory.

    - `Target`, `target`: what a token points at.
    - `resolveToken_congr`: a token names what is found at its target, however it is spelled.
    - `target_slashes`, `target_star`: slashes that do not matter.
    - `workingPath_join`: the base below the working directory.
    - `resolve_respelled`: token lists and bases that differ in their spelling only.
-/

namespace Hosting

open Text

namespace Classpath

variable {c : Classpath} {m : Machine} {token dir run run' : List Char}

/-! ### Targets -/

/-- What a token points at. -/
inductive Target where
  /-- The archives directly inside a directory. -/
  | archivesIn (dir : List Char)
  /-- The directory or the archive at a path. -/
  | place (path : List Char)
deriving DecidableEq, Repr

/-- The target of a token. Nothing before the star stands for the base itself. -/
def target (token : List Char) : Target :=
  match beforeStar? token with
  | some before =>
    .archivesIn (if withoutEnd before = [] then ['.'] else withoutEnd before)
  | none => .place (withoutEnd token)

/-- Tokens with one target name the same libraries. -/
theorem resolveToken_congr {token token' : List Char} (h : target token = target token')
    (base : FilePath) : c.resolveToken m base token = c.resolveToken m base token' := by
  unfold target at h
  unfold resolveToken
  cases hstar : beforeStar? token with
  | some before =>
    cases hstar' : beforeStar? token' with
    | some before' =>
      simp only [hstar, hstar', Target.archivesIn.injEq] at h
      simp only [h]
    | none => simp [hstar, hstar'] at h
  | none =>
    cases hstar' : beforeStar? token' with
    | some before' => simp [hstar, hstar'] at h
    | none =>
      simp only [hstar, hstar', Target.place.injEq] at h
      simp only [h]

/-! ### Slashes that do not matter -/

/-- Slashes behind a token are left out, unless there is nothing else. -/
theorem withoutEnd_append (hne : token ≠ []) (hrun : ∀ ch ∈ run, isSeparator ch = true) :
    withoutEnd (token ++ run) = withoutEnd token := by
  unfold withoutEnd
  rw [dropEnd_append_run token hrun]
  cases token with
  | nil => exact absurd rfl hne
  | cons ch rest => rfl

theorem not_isBlank_of_isSeparator {ch : Char} (h : isSeparator ch = true) :
    isBlank ch = false := by
  unfold isSeparator at h
  rcases Bool.or_eq_true_iff.1 h with hslash | hback
  · rw [beq_iff_eq.1 hslash]
    rfl
  · rw [beq_iff_eq.1 hback]
    rfl

theorem head?_append_run (hne : token ≠ []) : (token ++ run).head? = token.head? := by
  cases token with
  | nil => exact absurd rfl hne
  | cons ch rest => rfl

/-- The last character of a token and slashes behind it. -/
theorem getLast?_append_run {ch : Char} (h : (token ++ run).getLast? = some ch) :
    ch ∈ run ∨ token.getLast? = some ch := by
  rw [List.getLast?_append] at h
  cases hlast : run.getLast? with
  | none =>
    rw [hlast, Option.none_or] at h
    exact .inr h
  | some last =>
    rw [hlast, Option.some_or] at h
    exact .inl (List.mem_of_getLast? (hlast.trans h))

theorem target_slashes (hne : token ≠ []) (hstar : token.getLast? ≠ some '*')
    (hrun : ∀ ch ∈ run, isSeparator ch = true) : target (token ++ run) = target token := by
  have hplain : beforeStar? token = none := if_neg hstar
  have hslashed : beforeStar? (token ++ run) = none := by
    apply if_neg
    intro hlast
    rcases getLast?_append_run hlast with hmem | hlast
    · have hsep := hrun '*' hmem
      contradiction
    · exact hstar hlast
  unfold target
  rw [hplain, hslashed]
  simp only [withoutEnd_append hne hrun]

theorem target_star (hne : dir ≠ []) (hrun : ∀ ch ∈ run, isSeparator ch = true) :
    target (dir ++ run ++ ['*']) = target (dir ++ ['*']) := by
  have hbefore (cs : List Char) : beforeStar? (cs ++ ['*']) = some cs := by
    unfold beforeStar?
    rw [if_pos List.getLast?_concat, List.dropLast_concat]
  unfold target
  rw [hbefore, hbefore]
  simp only [withoutEnd_append hne hrun]

/-! ### Token lists -/

/-- The text neither begins nor ends with a blank. -/
def IsTrimmed (cs : List Char) : Prop :=
  (∀ ch, cs.head? = some ch → isBlank ch = false) ∧
    ∀ ch, cs.getLast? = some ch → isBlank ch = false

theorem strip_of_isTrimmed {cs : List Char} (h : IsTrimmed cs) : strip isBlank cs = cs :=
  strip_of_ends h.1 h.2

theorem isTrimmed_strip (cs : List Char) : IsTrimmed (strip isBlank cs) :=
  ⟨fun _ hhead => head?_strip hhead, fun _ hlast => getLast?_strip hlast⟩

theorem isTrimmed_iff {cs : List Char} : IsTrimmed cs ↔ strip isBlank cs = cs := by
  constructor
  · exact strip_of_isTrimmed
  · intro h
    rw [← h]
    exact isTrimmed_strip cs

instance (cs : List Char) : Decidable (IsTrimmed cs) :=
  decidable_of_decidable_of_iff isTrimmed_iff.symm

theorem IsTrimmed.slashes (h : IsTrimmed token) (hne : token ≠ [])
    (hrun : ∀ ch ∈ run, isSeparator ch = true) : IsTrimmed (token ++ run) := by
  constructor
  · intro ch hhead
    rw [head?_append_run hne] at hhead
    exact h.1 ch hhead
  · intro ch hlast
    rcases getLast?_append_run hlast with hmem | hlast
    · exact not_isBlank_of_isSeparator (hrun ch hmem)
    · exact h.2 ch hlast

theorem isTrimmed_star (hhead : ∀ ch, dir.head? = some ch → isBlank ch = false)
    (hne : dir ≠ []) : IsTrimmed (dir ++ run ++ ['*']) := by
  constructor
  · intro ch h
    rw [List.append_assoc, head?_append_run hne] at h
    exact hhead ch h
  · intro ch h
    rw [List.getLast?_concat] at h
    rw [← Option.some.inj h]
    rfl

/-- In a list, a token can be put in place of another one with the same target. -/
theorem resolve_replace {token token' : List Char} (htrim : IsTrimmed token)
    (htrim' : IsTrimmed token') (hne : token ≠ []) (hne' : token' ≠ [])
    (h : target token = target token') (before after : List String) (base : FilePath) :
    c.resolve m (before ++ .ofList token :: after) base =
      c.resolve m (before ++ .ofList token' :: after) base := by
  unfold resolve
  simp only [List.map_append, List.map_cons, List.filter_append, List.flatMap_append,
    String.toList_ofList, strip_of_isTrimmed htrim, strip_of_isTrimmed htrim']
  rw [List.filter_cons_of_pos (by simpa using hne), List.filter_cons_of_pos (by simpa using hne'),
    List.flatMap_cons, List.flatMap_cons, resolveToken_congr h]

/-- What lies below the working directory starts at the root, so it is not moved again. -/
theorem workingPath_join (m : Machine) (base : FilePath) :
    m.workingPath.join (m.workingPath.join base) = m.workingPath.join base := by
  have hroot : (m.workingPath.join base).isAbsolute = true := by
    by_cases hbase : base.isAbsolute = true
    · unfold FilePath.join
      rw [if_pos hbase]
      exact hbase
    · unfold FilePath.join
      rw [if_neg hbase]
      unfold Machine.workingPath FilePath.ofNames FilePath.ofChars FilePath.isAbsolute
      split <;> simp
  rw [FilePath.join.eq_def m.workingPath (m.workingPath.join base), if_pos hroot]

/-- Slashes at the end of a token do not matter, and nor do slashes before the star at its end,
    wherever the token stands in a list. A base that does not start at the root is the same as
    that base below the working directory. -/
theorem resolve_respelled (c : Classpath) (m : Machine) (base : FilePath) :
    (∀ token run : List Char, token ≠ [] → IsTrimmed token → token.getLast? ≠ some '*' →
        (∀ ch ∈ run, isSeparator ch = true) → ∀ before after : List String,
          c.resolve m (before ++ .ofList (token ++ run) :: after) base =
            c.resolve m (before ++ .ofList token :: after) base) ∧
      (∀ dir run : List Char, dir ≠ [] → (∀ ch, dir.head? = some ch → isBlank ch = false) →
        (∀ ch ∈ run, isSeparator ch = true) → ∀ before after : List String,
          c.resolve m (before ++ .ofList (dir ++ run ++ ['*']) :: after) base =
            c.resolve m (before ++ .ofList (dir ++ ['*']) :: after) base) ∧
      ∀ tokens : List String,
        c.resolve m tokens base = c.resolve m tokens (m.workingPath.join base) := by
  refine ⟨?_, ?_, ?_⟩
  · intro token run hne htrim hstar hrun before after
    have hslashed : token ++ run ≠ [] := fun h => hne (List.append_eq_nil_iff.1 h).1
    exact resolve_replace (htrim.slashes hne hrun) htrim hslashed hne
      (target_slashes hne hstar hrun) before after base
  · intro dir run hne hhead hrun before after
    have htrim : IsTrimmed (dir ++ ['*']) := by
      have h : IsTrimmed (dir ++ [] ++ ['*']) := isTrimmed_star hhead hne
      rwa [List.append_nil] at h
    exact resolve_replace (isTrimmed_star hhead hne) htrim (by simp) (by simp)
      (target_star hne hrun) before after base
  · intro tokens
    unfold resolve
    rw [workingPath_join]

/-- A machine that works in `/srv`. Among its files is a directory with two archives, a link to
    one of them, a link that leads nowhere, and directories in it. -/
def shelf : Machine where
  files :=
    let file := FileTree.node (.file (.text "PK")) []
    .node .directory
      [("srv", .node .directory
        [("ext", .node .directory
          [("zeta.jar", file), ("alpha.JAR", file), ("notes.txt", file),
           ("mid.zip", .node (.link "/srv/ext/zeta.jar") []),
           ("gone.jar", .node (.link "lost.jar") []),
           ("folder.jar", .node .directory []),
           ("nested", .node .directory [("deep.jar", file)])])])]
  workingDirectory := ["srv"]
  dataHome := ⟨"/home"⟩

/-- A directory and the archives in it, each spelled with slashes and without. -/
theorem resolve_respelled_shelf :
    default.resolve shelf ["x", "ext/\\"] ⟨"."⟩ = [⟨⟨"/srv/ext"⟩, .directory⟩] ∧
      default.resolve shelf ["ext\\//*", "x"] ⟨""⟩ = default.resolve shelf ["ext*", "x"] ⟨""⟩ := by
  have htoken : IsTrimmed "ext".toList := by
    constructor
    · intro ch h
      obtain rfl := Option.some.inj h
      rfl
    · intro ch h
      obtain rfl := Option.some.inj h
      rfl
  obtain ⟨hslashes, -, hbase⟩ := resolve_respelled default shelf ⟨"."⟩
  obtain ⟨-, hstar, -⟩ := resolve_respelled default shelf ⟨""⟩
  constructor
  · have hplain : default.resolve shelf ["x", "ext/\\"] ⟨"."⟩ =
        default.resolve shelf ["x", "ext"] ⟨"."⟩ :=
      hslashes "ext".toList "/\\".toList (by decide) htoken (by decide) (by simp [isSeparator])
        ["x"] []
    rw [hplain, hbase]
    decide +kernel
  · exact hstar "ext".toList "\\//".toList (by decide) htoken.1 (by simp [isSeparator]) [] ["x"]

end Classpath

end Hosting
