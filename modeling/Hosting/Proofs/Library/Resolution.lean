import Hosting.Proofs.Library.Tokens

/-! # Resolving token lists

    The tokens of a classpath are resolved from left to right, each to no library, to one or to
    many, and of the libraries at one place only the first stays. So what a list comes to can be
    put together from what its parts come to.

    - `eachPlaceOnce_append`: two lists of libraries, one behind the other.
    - `Usable`, `NamesNothing`: tokens that point at something, and those that do not.
    - `named_singleton_iff`: these name no libraries.
    - `resolve_append_new`: two token lists, one behind the other.
-/

namespace Hosting

open Text

/-! ### Places that are taken -/

namespace Library

variable {ls : List Library}

/-- A library at this place is in the list. -/
def takes (ls : List Library) (l : Library) : Bool :=
  ls.any fun k => k.path.same l.path

theorem takes_congr {l k : Library} (ls : List Library) (h : l.path.same k.path = true) :
    takes ls l = takes ls k := by
  unfold takes
  congr 1
  funext other
  unfold FilePath.same
  rw [FilePath.same_iff.1 h]

theorem takes_of_mem {l : Library} (h : l ∈ ls) : takes ls l = true :=
  List.any_eq_true.2 ⟨l, h, FilePath.same_iff.2 rfl⟩

/-- Of the second list those stay whose place the first one leaves free. -/
theorem eachPlaceOnce_append (ls ks : List Library) :
    eachPlaceOnce (ls ++ ks) =
      eachPlaceOnce ls ++ (eachPlaceOnce ks).filter fun l => !takes (eachPlaceOnce ls) l := by
  have hnew : eachPlaceOnce (ks.filter fun l => !takes (eachPlaceOnce ls) l) =
      (eachPlaceOnce ks).filter fun l => !takes (eachPlaceOnce ls) l := by
    apply eraseDupsBy_filter
    intro first later hsame
    rw [takes_congr _ hsame]
  rw [Classpath.eachPlaceOnce_eq_foldl (ls ++ ks), List.foldl_append,
    ← Classpath.eachPlaceOnce_eq_foldl ls, Classpath.foldl_addNew, ← hnew]
  rfl

theorem eachPlaceOnce_append_self (ls : List Library) :
    eachPlaceOnce (ls ++ ls) = eachPlaceOnce ls := by
  have hnone : (eachPlaceOnce ls).filter (fun l => !takes (eachPlaceOnce ls) l) = [] := by
    apply List.filter_eq_nil_iff.2
    intro l hl
    rw [takes_of_mem hl]
    simp
  rw [eachPlaceOnce_append, hnone, List.append_nil]

theorem eachPlaceOnce_eq_nil_iff : eachPlaceOnce ls = [] ↔ ls = [] := by
  cases ls with
  | nil => exact iff_of_true rfl rfl
  | cons l rest =>
    unfold eachPlaceOnce
    rw [List.eraseDupsBy_cons]
    simp

end Library

namespace Classpath

open Library

variable {c : Classpath} {m : Machine} {base : FilePath}

/-! ### Tokens that name nothing -/

/-- There is something to use at a target: a directory that holds archives, or a directory or an
    archive itself. -/
def Usable (c : Classpath) (m : Machine) (base : FilePath) : Target → Prop
  | .archivesIn dir =>
    m.isDirectory (base.join (.ofChars dir)) = true ∧ c.expand m (base.join (.ofChars dir)) ≠ []
  | .place text =>
    ∃ place, m.canonical (base.join (.ofChars text)) = .ok place ∧
      (m.kindOf (base.join (.ofChars text)) = .ok .directory ∨
        m.kindOf (base.join (.ofChars text)) = .ok .file ∧ c.isArchive place = true)

theorem resolveToken_ne_nil_iff {token : List Char} :
    c.resolveToken m base token ≠ [] ↔ c.Usable m base (target token) := by
  unfold resolveToken target
  cases beforeStar? token with
  | some before =>
    simp only [Usable]
    split <;> simp [*]
  | none =>
    simp only [Usable]
    cases hplace : m.canonical (base.join (.ofChars (withoutEnd token))) with
    | error e => cases m.kindOf (base.join (.ofChars (withoutEnd token))) <;> simp
    | ok place =>
      cases hkind : m.kindOf (base.join (.ofChars (withoutEnd token))) with
      | error e => simp
      | ok kind =>
        cases kind with
        | directory => simp
        | file => cases c.isArchive place <;> simp

/-- The token is blank, or there is nothing to use at its target. -/
def NamesNothing (c : Classpath) (m : Machine) (base : FilePath) (token : String) : Prop :=
  strip isBlank token.toList = [] ∨
    ¬ c.Usable m (m.workingPath.join base) (target (strip isBlank token.toList))

/-! ### All that is named -/

/-- The libraries that the tokens name, one token after the other and with all repetitions. -/
def named (c : Classpath) (m : Machine) (tokens : List String) (base : FilePath) : List Library :=
  ((tokens.map fun t => strip isBlank t.toList).filter (· ≠ [])).flatMap
    (c.resolveToken m (m.workingPath.join base))

theorem resolve_eq (tokens : List String) :
    c.resolve m tokens base = eachPlaceOnce (c.named m tokens base) :=
  (eachPlaceOnce_eq_foldl _).symm

theorem named_append (xs ys : List String) :
    c.named m (xs ++ ys) base = c.named m xs base ++ c.named m ys base := by
  unfold named
  rw [List.map_append, List.filter_append, List.flatMap_append]

theorem named_singleton_iff {token : String} :
    c.named m [token] base = [] ↔ c.NamesNothing m base token := by
  unfold named NamesNothing
  rw [List.map_singleton]
  by_cases hblank : strip isBlank token.toList = []
  · rw [List.filter_cons_of_neg (by simpa using hblank)]
    exact iff_of_true rfl (.inl hblank)
  · rw [List.filter_cons_of_pos (by simpa using hblank), List.filter_nil, List.flatMap_singleton,
      or_iff_right hblank, ← resolveToken_ne_nil_iff, Classical.not_not]

/-- Tokens that name nothing make no difference, wherever they stand. No other tokens do so. -/
theorem resolve_insert_iff {token : String} :
    (∀ before after, c.resolve m (before ++ token :: after) base =
        c.resolve m (before ++ after) base) ↔ c.NamesNothing m base token := by
  rw [← named_singleton_iff]
  constructor
  · intro hsame
    have hnone : eachPlaceOnce (c.named m [token] base) = [] := by
      rw [← resolve_eq]
      exact hsame [] []
    exact eachPlaceOnce_eq_nil_iff.1 hnone
  · intro hnone before after
    have hcons : token :: after = [token] ++ after := rfl
    rw [resolve_eq, resolve_eq, hcons, named_append, named_append [token], hnone, List.nil_append,
      ← named_append]

/-- Two token lists, one behind the other, come to the libraries of the first and then those of the
    second at places that are still free. No place occurs twice. So a list that is repeated comes
    to nothing new, and a token can be left out everywhere exactly if it names nothing that can be
    used. A new search path takes the libraries over as they are. -/
theorem resolve_append_new (c : Classpath) (m : Machine) (xs ys : List String) (base : FilePath) :
    c.resolve m (xs ++ ys) base =
        c.resolve m xs base ++
          (c.resolve m ys base).filter (fun l => !takes (c.resolve m xs base) l) ∧
      AtDistinctPlaces (c.resolve m xs base) ∧
      c.resolve m (xs ++ xs) base = c.resolve m xs base ∧
      (∀ token, (∀ before after, c.resolve m (before ++ token :: after) base =
        c.resolve m (before ++ after) base) ↔ c.NamesNothing m base token) ∧
      ∀ first rules, (⟨[], first, rules⟩ : LibrarySet).pushAll (c.resolve m xs base) =
        ⟨c.resolve m xs base, first, rules⟩ := by
  refine ⟨?_, c.atDistinctPlaces_resolve m xs base, ?_, fun token => resolve_insert_iff, ?_⟩
  · rw [resolve_eq, resolve_eq, resolve_eq, named_append, eachPlaceOnce_append]
  · rw [resolve_eq, resolve_eq, named_append, eachPlaceOnce_append_self]
  · intro first rules
    rw [LibrarySet.pushAll_eq, foldl_addNew_nil (c.atDistinctPlaces_resolve m xs base)]

/-- An archive, its directory, a link that leads nowhere, and the same archive again. -/
example : default.resolve shelf ["ext/zeta.jar", "ext", "ext/gone.jar", "/srv/./ext//zeta.jar/"]
      ⟨""⟩ = [⟨⟨"/srv/ext/zeta.jar"⟩, .archive⟩, ⟨⟨"/srv/ext"⟩, .directory⟩] := by
  decide +kernel

end Classpath

end Hosting
