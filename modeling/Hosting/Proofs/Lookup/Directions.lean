import Hosting.Proofs.Host.Runs
import Hosting.Proofs.Lookup.AliasRoutes
import Hosting.Proofs.Lookup.Callers

/-! # Both directions of an alias

    A pair of the table leads from either side to the other. Forward it always does, since one
    route starts at a prefix. Backward it does so only where its source is the counterpart of its
    target: a route that starts at the target comes before it, and so does a newer one that ends
    there, and then the file behind the source is not looked for.

    - `IsPlainRest`: what may follow a prefix that ends in a slash.
    - `NoneLonger`: no longer registered text decides about a path.
    - `reaches_behind_iff`: what a path behind a registered prefix reaches.
    - `bothWays_iff`: what is reached in the two directions of a pair.
    - `not_bothWays`: a second route onto the same target takes the first one away.
-/

namespace Hosting.Namespace

open Text VirtualPath

variable {m : Machine} {ns : Namespace} {table : List (String × String)}
  {path normal key side rest : String}

/-! ### What follows a prefix -/

/-- Plain segments with slashes between them, and perhaps one at the end. -/
def IsPlainRest (rest : String) : Prop :=
  ∃ plain trailing, (∀ s ∈ plain, IsPlain s) ∧ '/' :: rest.toList = spell plain trailing

/-- Plain segments behind others are spelled together with them. -/
theorem exists_spell_append (plain inner : List (List Char)) (trailing : Bool) :
    ∃ last, plain.flatMap ('/' :: ·) ++ spell inner trailing = spell (plain ++ inner) last := by
  by_cases hinner : inner = []
  · refine ⟨true, ?_⟩
    rw [hinner, List.append_nil]
    simp [spell]
  · refine ⟨trailing, ?_⟩
    rw [spell_of_ne_nil hinner, spell_of_ne_nil (List.append_ne_nil_of_right_ne_nil _ hinner),
      List.flatMap_append, List.append_assoc]

theorem isNormal_routed (hside : IsNormal side) (hrest : IsPlainRest rest) :
    IsNormal (routed side rest.toList) := by
  obtain ⟨plain, ending, hplain, hside⟩ := hside
  obtain ⟨inner, trailing, hinner, hspell⟩ := hrest
  obtain ⟨last, hlast⟩ := exists_spell_append plain inner trailing
  refine ⟨plain ++ inner, last, List.forall_mem_append.2 ⟨hplain, hinner⟩, ?_⟩
  rw [toList_routed hplain hside, hspell, hlast]

/-- Behind a text that ends in a slash, the rest is put as it is. -/
theorem routed_of_slash (hkey : key.toList.getLast? = some '/') (rest : String) :
    routed key rest.toList = key ++ rest := by
  rw [routed, if_pos hkey, String.ofList_toList]

theorem isNormal_append (hkey : IsNormal key) (hslash : key.toList.getLast? = some '/')
    (hrest : IsPlainRest rest) : IsNormal (key ++ rest) := by
  rw [← routed_of_slash hslash]
  exact isNormal_routed hkey hrest

/-! ### Places of joined paths -/

theorem named_append_slash_append (front back : List Char) :
    named (front ++ '/' :: back) = named front ++ named back := by
  unfold named
  rw [segments_append_slash, List.filter_append]

/-- Paths with the same names stand for the same place. -/
theorem stands_congr {other : String} (h : named path.toList = named other.toList) :
    ns.Stands m path ↔ ns.Stands m other := by
  have hplace (root : FilePath) : placeBelow root path = placeBelow root other := by
    unfold named at h
    unfold placeBelow
    rw [h]
  unfold Stands
  simp only [hplace]

theorem named_routed (hside : IsNormal side) (rest : List Char) :
    named (routed side rest).toList = named side.toList ++ named rest := by
  obtain ⟨plain, trailing, hplain, hside⟩ := hside
  have hbody := named_flatMap hplain (.inl rfl : ([] : List Char) = [] ∨ _)
  rw [List.append_nil] at hbody
  rw [toList_routed hplain hside, named_append_slash_append, hbody, hside, named_spell hplain]

theorem named_joint (hside : IsNormal side) (rest : List Char) :
    named (joint side rest).toList = named side.toList ++ named rest := by
  unfold joint
  split
  · next hnil =>
    rw [hnil]
    simp
  · exact named_routed hside rest

/-- A side with the rest behind it stands for the place of the two with a slash between them. -/
theorem stands_joint (hside : IsNormal side) (rest : String) :
    ns.Stands m (joint side rest.toList) ↔ ns.Stands m (side ++ "/" ++ rest) := by
  apply stands_congr
  rw [named_joint hside, toList_behind, named_append_slash_append]

/-! ### Keys -/

/-- The text is longer than the key, and it is the path `key ++ rest` or a prefix of it that ends in
    a slash. -/
def Outdoes (key rest other : String) : Prop :=
  key.toList.length < other.toList.length ∧
    (other = key ++ rest ∨
      other.toList.getLast? = some '/' ∧ other.toList <+: (key ++ rest).toList)

instance (key rest other : String) : Decidable (Outdoes key rest other) :=
  inferInstanceAs (Decidable (_ ∧ (_ ∨ _ ∧ _)))

/-- No registered text outdoes the key. -/
def NoneLonger (table : List (String × String)) (key rest : String) : Prop :=
  ∀ other, Registered table other → ¬ Outdoes key rest other

instance (table : List (String × String)) (key rest : String) :
    Decidable (NoneLonger table key rest) :=
  decidable_of_iff
    (∀ pair ∈ table, ¬ Outdoes key rest pair.1 ∧ ¬ Outdoes key rest pair.2)
    ⟨fun h _ ⟨pair, hpair, hside⟩ =>
      hside.elim (fun heq => heq ▸ (h pair hpair).1) (fun heq => heq ▸ (h pair hpair).2),
      fun h pair hpair => ⟨h _ ⟨pair, hpair, .inl rfl⟩, h _ ⟨pair, hpair, .inr rfl⟩⟩⟩

theorem NoneLonger.isKey (h : NoneLonger table key rest) (hkey : Registered table key)
    (hslash : key.toList.getLast? = some '/') :
    IsKey table (key ++ rest) key rest.toList := by
  by_cases hwhole : Registered table (key ++ rest)
  · -- the whole path is not longer than its key, so nothing follows the key
    have hlength : ¬ key.toList.length < (key ++ rest).toList.length := by
      intro hlt
      exact h _ hwhole ⟨hlt, .inl rfl⟩
    have hnil : rest = "" := by
      rw [String.toList_append, List.length_append] at hlength
      apply String.toList_eq_nil_iff.1
      apply List.eq_nil_of_length_eq_zero
      omega
    rw [hnil, String.append_empty]
    exact .whole hkey
  · refine .longest key rest.toList hwhole hkey hslash String.toList_append ?_
    intro other hother hend hprefix
    apply Nat.le_of_not_lt
    intro hlt
    exact h other hother ⟨hlt, .inr ⟨hend, hprefix⟩⟩

/-! ### What is reached -/

/-- The application itself reaches what stands at the path or at its route. -/
theorem reaches_inside_iff (hn : normalize path = some normal) :
    ns.reaches m path .inside = true ↔ ns.Stands m normal ∨
      ∃ route, ns.aliasRoute normal = some route ∧ ns.Stands m route := by
  have hlocate (place : String) :
      (ns.locate m normal place).isSome = true ↔ ns.Stands m place := by
    rw [Option.isSome_iff_ne_none, ne_eq, locate_eq_none_iff, Classical.not_not]
  unfold reaches
  rw [resolve_inside hn, Option.isSome_or, Bool.or_eq_true, hlocate]
  refine or_congr_right ?_
  cases ns.aliasRoute normal with
  | none => simp
  | some route => simp [hlocate]

/-- Behind a registered prefix that no longer one outdoes, the application reaches what stands there,
    and what stands behind the counterpart of the prefix. -/
theorem reaches_behind_iff (hkept : AreKept ns.aliases)
    (hside : counterpart ns.aliases key = some side) (hslash : key.toList.getLast? = some '/')
    (hrest : IsPlainRest rest) (hlonger : NoneLonger ns.aliases key rest) :
    ns.reaches m (key ++ rest) .inside = true ↔
      ns.Stands m (key ++ rest) ∨ ns.Stands m (side ++ "/" ++ rest) := by
  have hkey := registered_of_counterpart hside
  have hpath := normalize_of_isNormal (isNormal_append (hkept.isNormal hkey) hslash hrest)
  have hnormal := hkept.isNormal (registered_counterpart hside)
  have hjoint : IsNormal (joint side rest.toList) := by
    unfold joint
    split
    · exact hnormal
    · exact isNormal_routed hnormal hrest
  have hroute : ns.aliasRoute (key ++ rest) = some (joint side rest.toList) := by
    rw [aliasRoute, aliasFor_of_isKey (hlonger.isKey hkey hslash) hside, Option.bind_some,
      normalize_of_isNormal hjoint]
  rw [reaches_inside_iff hpath, hroute]
  simp only [Option.some.injEq, exists_eq_left', stands_joint hnormal]

/-- Behind a key that ends in a slash, one more slash does not count. -/
theorem stands_behind (hkey : IsNormal key) (hslash : key.toList.getLast? = some '/')
    (rest : String) : ns.Stands m (key ++ "/" ++ rest) ↔ ns.Stands m (key ++ rest) := by
  apply stands_congr
  rw [toList_behind, named_append_slash_append, ← routed_of_slash hslash, named_routed hkey]

/-- Forward, the application reaches what stands behind the target of a pair by the same path behind
    its source. Backward it asks the counterpart of the target: what stands behind the source is
    reached if the source is that counterpart, and else only if something stands in place of it. -/
theorem bothWays_iff {reserved : ProtectedTargets} {calls : List (String × String)}
    {source target : String}
    (htable : ((ofTargets reserved).registerAliases calls).aliases = ns.aliases)
    (hpair : (source, target) ∈ ns.aliases) (hsource : source.toList.getLast? = some '/')
    (htarget : target.toList.getLast? = some '/') (hrest : IsPlainRest rest) :
    (NoneLonger ns.aliases source rest → ns.Stands m (target ++ rest) →
        ns.reaches m (source ++ rest) .inside = true) ∧
      (NoneLonger ns.aliases target rest → ns.Stands m (source ++ rest) →
        ∃ side, IsCounterpart ns.aliases target side ∧
          (ns.reaches m (target ++ rest) .inside = true ↔
            side = source ∨ ns.Stands m (target ++ rest) ∨
              ns.Stands m (side ++ "/" ++ rest))) := by
  have hkept : AreKept ns.aliases := by
    rw [← htable]
    exact areKept_nil.registerAliases calls
  have hnormal := hkept.normal _ hpair
  constructor
  · intro hlonger hstands
    have hside : counterpart ns.aliases source = some target :=
      (counterpart_eq_some_iff hkept).2 (.ahead hpair)
    rw [reaches_behind_iff hkept hside hsource hrest hlonger,
      stands_behind (isNormal_of_normalize hnormal.2) htarget]
    exact .inr hstands
  · intro hlonger hstands
    cases hside : counterpart ns.aliases target with
    | none => exact absurd ⟨_, hpair, .inr rfl⟩ (counterpart_eq_none_iff.1 hside)
    | some side =>
      refine ⟨side, (counterpart_eq_some_iff hkept).1 hside, ?_⟩
      rw [reaches_behind_iff hkept hside htarget hrest hlonger]
      constructor
      · exact .inr
      · rintro (rfl | hother)
        · -- the file behind the source is the one that the counterpart leads to
          exact .inr ((stands_behind (isNormal_of_normalize hnormal.1) hsource rest).2 hstands)
        · exact hother

/-- The directory of the small machine with these aliases. -/
def routedBy (calls : List (String × String)) : Namespace :=
  ((ofTargets .default).withBase (.directory ⟨"/srv/a"⟩)).registerAliases calls

/-- Two routes onto one target, of which the second one leads to the files. -/
def newestCalls : List (String × String) :=
  [("/old/", "/t/"), ("/static/", "/t/"), ("/t/x/", "/u/")]

theorem isPlainRest_file : IsPlainRest "a.txt" :=
  ⟨["a.txt".toList], false, by decide, by decide⟩

/-- The newest of the routes onto a target is the one that leads back. -/
theorem bothWays_iff_newest :
    ((ofTargets .default).registerAliases newestCalls).aliases = (routedBy newestCalls).aliases ∧
      ("/static/", "/t/") ∈ (routedBy newestCalls).aliases ∧ IsPlainRest "a.txt" ∧
      NoneLonger (routedBy newestCalls).aliases "/t/" "a.txt" ∧
      (routedBy newestCalls).Stands Sample.machine ("/static/" ++ "a.txt") ∧
      (routedBy newestCalls).reaches Sample.machine ("/t/" ++ "a.txt") .inside = true := by
  have htable : ((ofTargets .default).registerAliases newestCalls).aliases =
      (routedBy newestCalls).aliases := by
    decide +kernel
  have hpair : ("/static/", "/t/") ∈ (routedBy newestCalls).aliases := by
    decide +kernel
  have hlonger : NoneLonger (routedBy newestCalls).aliases "/t/" "a.txt" := by
    decide +kernel
  have hstands : (routedBy newestCalls).Stands Sample.machine ("/static/" ++ "a.txt") :=
    ⟨.directory ⟨"/srv/a"⟩, .file, by decide +kernel, rfl⟩
  have hback : counterpart (routedBy newestCalls).aliases "/t/" = some "/static/" := by
    decide +kernel
  have hkept : AreKept (routedBy newestCalls).aliases := by
    rw [← htable]
    exact areKept_nil.registerAliases newestCalls
  have hboth := bothWays_iff (m := Sample.machine) htable hpair (by decide) (by decide)
    isPlainRest_file
  obtain ⟨side, hside, hreaches⟩ := hboth.2 hlonger hstands
  have hsame := (counterpart_eq_some_iff hkept).2 hside
  rw [hback] at hsame
  exact ⟨htable, hpair, isPlainRest_file, hlonger, hstands,
    hreaches.2 (.inl (Option.some.inj hsame).symm)⟩

/-- The same two routes, the other way about. -/
def oldestCalls : List (String × String) :=
  [("/static/", "/t/"), ("/old/", "/t/")]

/-- A file behind the source of a pair is not reached by the same path behind its target, once a
    second route onto that target is registered. -/
theorem not_bothWays :
    ¬ ∀ (m : Machine) (ns : Namespace) (reserved : ProtectedTargets)
        (calls : List (String × String)) (source target rest : String),
      ((ofTargets reserved).registerAliases calls).aliases = ns.aliases →
      (source, target) ∈ ns.aliases → source.toList.getLast? = some '/' →
      target.toList.getLast? = some '/' → IsPlainRest rest →
        (NoneLonger ns.aliases source rest → ns.Stands m (target ++ rest) →
          ns.reaches m (source ++ rest) .inside = true) ∧
        (NoneLonger ns.aliases target rest → ns.Stands m (source ++ rest) →
          ns.reaches m (target ++ rest) .inside = true) := by
  intro hall
  have hstands : (routedBy oldestCalls).Stands Sample.machine ("/static/" ++ "a.txt") :=
    ⟨.directory ⟨"/srv/a"⟩, .file, by decide +kernel, rfl⟩
  have hmissed :
      (routedBy oldestCalls).reaches Sample.machine ("/t/" ++ "a.txt") .inside = false := by
    decide +kernel
  have hback := (hall Sample.machine (routedBy oldestCalls) .default oldestCalls "/static/" "/t/"
    "a.txt" (by decide +kernel) (by decide +kernel) (by decide) (by decide) isPlainRest_file).2
  rw [hback (by decide +kernel) hstands] at hmissed
  cases hmissed

end Hosting.Namespace
