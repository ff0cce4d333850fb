import Hosting.Namespace
import Hosting.Proofs.Path.Normal

/-! # Alias tables

    A namespace keeps its routes in the order in which they were registered, in normal
    spelling. A route takes the place of one from the same prefix, and moves to the end.

    - `AreKept`: normal spellings, and one route from each prefix.
    - `aliases_replayed`: registered once more, the routes of a table give the table.
    - `accepted`: the registrations that add a route.
    - `standing`: the routes that no later one has replaced.
    - `mem_standing_iff`, `pair_sublist_standing_iff`: which routes these are, and their order.
    - `aliases_registerAliases_ofTargets`: every table that registrations build.
-/

namespace Hosting.Namespace

open VirtualPath

/-! ### Routes that are kept -/

/-- Routes as a namespace keeps them: normal spellings, and one route from each prefix. -/
structure AreKept (routes : List (String × String)) : Prop where
  normal : ∀ route ∈ routes, normalize route.1 = some route.1 ∧ normalize route.2 = some route.2
  distinct : routes.Pairwise fun a b => a.1 ≠ b.1

theorem areKept_nil : AreKept [] := by
  refine ⟨?_, .nil⟩
  intro route hroute
  cases hroute

theorem AreKept.registerAlias {ns : Namespace} (h : AreKept ns.aliases) (source target : String) :
    AreKept (ns.registerAlias source target).aliases := by
  unfold Namespace.registerAlias
  split
  · next source target hsource htarget =>
    have hsame : normalize source = some source ∧ normalize target = some target :=
      ⟨normalize_of_isNormal (isNormal_of_normalize hsource),
        normalize_of_isNormal (isNormal_of_normalize htarget)⟩
    refine ⟨fun route hroute => ?_, List.pairwise_append.2 ⟨?_, List.pairwise_singleton .., ?_⟩⟩
    · rcases List.mem_append.1 hroute with hold | hnew
      · exact h.normal route (List.mem_filter.1 hold).1
      · obtain rfl := List.mem_singleton.1 hnew
        exact hsame
    · exact h.distinct.sublist List.filter_sublist
    · intro route hold new hnew
      obtain rfl := List.mem_singleton.1 hnew
      exact of_decide_eq_true (List.mem_filter.1 hold).2
  · exact h

theorem AreKept.registerAliases {ns : Namespace} (h : AreKept ns.aliases)
    (pairs : List (String × String)) : AreKept (ns.registerAliases pairs).aliases := by
  unfold Namespace.registerAliases
  induction pairs generalizing ns with
  | nil => exact h
  | cons pair rest ih => exact ih (h.registerAlias pair.1 pair.2)

/-- Kept routes are registered behind the ones that are there, if they have other prefixes. -/
theorem aliases_registerAliases {ns : Namespace} {routes : List (String × String)}
    (h : AreKept (ns.aliases ++ routes)) :
    (ns.registerAliases routes).aliases = ns.aliases ++ routes := by
  unfold Namespace.registerAliases
  induction routes generalizing ns with
  | nil => exact (List.append_nil _).symm
  | cons route rest ih =>
    obtain ⟨hsource, htarget⟩ := h.normal route (by simp)
    have hfree : ns.aliases.filter (fun pair => decide (pair.1 ≠ route.1)) = ns.aliases := by
      apply List.filter_eq_self.2
      intro pair hpair
      have hne := (List.pairwise_append.1 h.distinct).2.2 pair hpair route (List.mem_cons_self ..)
      exact decide_eq_true hne
    have hone : (ns.registerAlias route.1 route.2).aliases = ns.aliases ++ [route] := by
      simp only [Namespace.registerAlias, hsource, htarget]
      rw [hfree]
    have hrest : AreKept ((ns.registerAlias route.1 route.2).aliases ++ rest) := by
      rw [hone, List.append_assoc, List.singleton_append]
      exact h
    rw [List.foldl_cons, ih hrest, hone, List.append_assoc, List.singleton_append]

/-- Replaying kept routes on a namespace without any gives them back. -/
theorem aliases_replayed {ns : Namespace} (hnone : ns.aliases = [])
    {routes : List (String × String)} (h : AreKept routes) :
    (ns.registerAliases routes).aliases = routes := by
  have hall : AreKept (ns.aliases ++ routes) := by
    rw [hnone]
    exact h
  rw [aliases_registerAliases hall, hnone, List.nil_append]

/-! ### Registrations one after the other -/

/-- The registrations that add a route, in normal spelling. The others have a side that climbs above
    the root. -/
def accepted (calls : List (String × String)) : List (String × String) :=
  calls.filterMap fun call =>
    match VirtualPath.normalize call.1, VirtualPath.normalize call.2 with
    | some source, some target => some (source, target)
    | _, _ => none

/-- One of the later routes is from the same prefix, so it takes the place of this one. -/
def Replaced (later : List (String × String)) (route : String × String) : Prop :=
  ∃ other ∈ later, other.1 = route.1

instance (later : List (String × String)) (route : String × String) :
    Decidable (Replaced later route) :=
  inferInstanceAs (Decidable (∃ _ ∈ _, _))

theorem not_replaced_nil (route : String × String) : ¬ Replaced [] route := by
  rintro ⟨other, hother, -⟩
  cases hother

theorem replaced_cons {route other : String × String} {later : List (String × String)} :
    Replaced (other :: later) route ↔ other.1 = route.1 ∨ Replaced later route := by
  unfold Replaced
  simp only [List.mem_cons, exists_eq_or_imp]

/-- The routes that are not replaced by later ones. -/
def standing : List (String × String) → List (String × String)
  | [] => []
  | route :: later =>
    if Replaced later route then standing later else route :: standing later

/-- The route is in the list, and none of those behind it is from the same prefix. -/
def IsLast (routes : List (String × String)) (route : String × String) : Prop :=
  ∃ earlier later, routes = earlier ++ route :: later ∧ ¬ Replaced later route

theorem not_isLast_nil (route : String × String) : ¬ IsLast [] route := by
  rintro ⟨earlier, later, hsplit, -⟩
  exact List.append_ne_nil_of_right_ne_nil _ (List.cons_ne_nil _ _) hsplit.symm

/-- A place in a list is its head or in its tail. -/
theorem exists_split_cons {α : Type} {x first : α} {rest : List α} {P : List α → Prop} :
    (∃ earlier later, first :: rest = earlier ++ x :: later ∧ P later) ↔
      (x = first ∧ P rest) ∨ ∃ earlier later, rest = earlier ++ x :: later ∧ P later := by
  constructor
  · rintro ⟨earlier, later, hsplit, hlater⟩
    cases earlier with
    | nil =>
      obtain ⟨rfl, rfl⟩ := List.cons.inj hsplit
      exact .inl ⟨rfl, hlater⟩
    | cons _ earlier => exact .inr ⟨earlier, later, (List.cons.inj hsplit).2, hlater⟩
  · rintro (⟨rfl, hrest⟩ | ⟨earlier, later, rfl, hlater⟩)
    · exact ⟨[], rest, rfl, hrest⟩
    · exact ⟨first :: earlier, later, rfl, hlater⟩

theorem isLast_cons {route other : String × String} {later : List (String × String)} :
    IsLast (other :: later) route ↔ (route = other ∧ ¬ Replaced later route) ∨ IsLast later route :=
  exists_split_cons

/-- The last route from one prefix is in front of the last one from another. -/
def LastInOrder (routes : List (String × String)) (front back : String × String) : Prop :=
  ∃ earlier later, routes = earlier ++ front :: later ∧ ¬ Replaced later front ∧ IsLast later back

theorem lastInOrder_cons {front back other : String × String} {later : List (String × String)} :
    LastInOrder (other :: later) front back ↔
      (front = other ∧ ¬ Replaced later front ∧ IsLast later back) ∨
        LastInOrder later front back :=
  exists_split_cons

/-- The last route from each prefix stays, and no other. -/
theorem mem_standing_iff {routes : List (String × String)} {route : String × String} :
    route ∈ standing routes ↔ IsLast routes route := by
  induction routes with
  | nil => exact iff_of_false List.not_mem_nil (not_isLast_nil route)
  | cons other later ih =>
    rw [standing, isLast_cons]
    by_cases hreplaced : Replaced later other
    · rw [if_pos hreplaced, ih]
      constructor
      · exact .inr
      · rintro (⟨rfl, hlast⟩ | hlater)
        · exact absurd hreplaced hlast
        · exact hlater
    · rw [if_neg hreplaced, List.mem_cons, ih]
      refine or_congr_left ⟨?_, fun h => h.1⟩
      rintro rfl
      exact ⟨rfl, hreplaced⟩

/-- Those that stay keep the order of their registrations. -/
theorem pair_sublist_standing_iff {routes : List (String × String)} {front back : String × String} :
    [front, back].Sublist (standing routes) ↔ LastInOrder routes front back := by
  induction routes with
  | nil =>
    refine iff_of_false (fun h => ?_) ?_
    · cases h
    · rintro ⟨earlier, later, hsplit, -⟩
      exact List.append_ne_nil_of_right_ne_nil _ (List.cons_ne_nil _ _) hsplit.symm
  | cons other later ih =>
    rw [standing, lastInOrder_cons]
    by_cases hreplaced : Replaced later other
    · rw [if_pos hreplaced, ih]
      constructor
      · exact .inr
      · rintro (⟨rfl, hlast, -⟩ | hlater)
        · exact absurd hreplaced hlast
        · exact hlater
    · -- the first one stays, so it is the front one or comes before both
      rw [if_neg hreplaced, List.sublist_cons_iff, ih, or_comm]
      refine or_congr_left ⟨?_, ?_⟩
      · rintro ⟨rest, hpair, hrest⟩
        obtain ⟨rfl, rfl⟩ := List.cons.inj hpair
        exact ⟨rfl, hreplaced, mem_standing_iff.1 (List.singleton_sublist.1 hrest)⟩
      · rintro ⟨rfl, -, hback⟩
        exact ⟨[back], rfl, List.singleton_sublist.2 (mem_standing_iff.2 hback)⟩

/-- A registration that adds a route puts it behind those from other prefixes. Any other one changes
    nothing. -/
theorem registerAlias_cases (ns : Namespace) (call : String × String)
    (later : List (String × String)) :
    (∃ route, accepted (call :: later) = route :: accepted later ∧
        (ns.registerAlias call.1 call.2).aliases =
          ns.aliases.filter (fun other => decide (other.1 ≠ route.1)) ++ [route]) ∨
      (accepted (call :: later) = accepted later ∧ ns.registerAlias call.1 call.2 = ns) := by
  cases hsource : VirtualPath.normalize call.1 with
  | none =>
    right
    constructor
    · simp only [accepted, List.filterMap_cons, hsource]
    · simp only [Namespace.registerAlias, hsource]
  | some source =>
    cases htarget : VirtualPath.normalize call.2 with
    | none =>
      right
      constructor
      · simp only [accepted, List.filterMap_cons, hsource, htarget]
      · simp only [Namespace.registerAlias, hsource, htarget]
    | some target =>
      left
      refine ⟨(source, target), ?_, ?_⟩
      · simp only [accepted, List.filterMap_cons, hsource, htarget]
      · simp only [Namespace.registerAlias, hsource, htarget]

/-- A pair with a side that climbs above the root is ignored. -/
theorem registerAlias_of_none {ns : Namespace} {source target : String}
    (h : normalize source = none ∨ normalize target = none) :
    ns.registerAlias source target = ns := by
  unfold Namespace.registerAlias
  rcases h with hnone | hnone
  · rw [hnone]
  · rw [hnone]
    cases normalize source <;> rfl

/-- What was there stays as far as no registration replaces it, and what is new stands behind it. -/
theorem aliases_registerAliases_eq (ns : Namespace) (calls : List (String × String)) :
    (ns.registerAliases calls).aliases =
      ns.aliases.filter (fun old => decide (¬ Replaced (accepted calls) old)) ++
        standing (accepted calls) := by
  -- each registration changes the table, so the induction is over the calls for every table
  induction calls generalizing ns with
  | nil =>
    have hall : ns.aliases.filter (fun old => decide (¬ Replaced [] old)) = ns.aliases := by
      apply List.filter_eq_self.2
      intro old _
      exact decide_eq_true (not_replaced_nil old)
    show ns.aliases = ns.aliases.filter (fun old => decide (¬ Replaced [] old)) ++ []
    rw [hall, List.append_nil]
  | cons call later ih =>
    have hstep : ns.registerAliases (call :: later) =
        (ns.registerAlias call.1 call.2).registerAliases later := rfl
    rw [hstep, ih]
    rcases registerAlias_cases ns call later with ⟨route, hcalls, haliases⟩ | ⟨hcalls, hsame⟩
    · -- an old route stays if neither this route nor a later one is from its prefix
      have hold (old : String × String) :
          (decide (¬ Replaced (accepted later) old) && decide (old.1 ≠ route.1)) =
            decide (¬ Replaced (route :: accepted later) old) := by
        rw [Bool.eq_iff_iff, Bool.and_eq_true, decide_eq_true_iff, decide_eq_true_iff,
          decide_eq_true_iff, replaced_cons, not_or, and_comm, ne_comm]
      have hnew : [route].filter (fun old => decide (¬ Replaced (accepted later) old)) ++
          standing (accepted later) = standing (route :: accepted later) := by
        rw [standing]
        by_cases hreplaced : Replaced (accepted later) route
        · rw [if_pos hreplaced, List.filter_cons_of_neg (by simpa using hreplaced)]
          rfl
        · rw [if_neg hreplaced, List.filter_cons_of_pos (by simpa using hreplaced)]
          rfl
      rw [hcalls, haliases, List.filter_append, List.filter_filter, List.append_assoc, hnew]
      simp only [hold]
    · rw [hcalls, hsame]

/-- A table holds the routes that were registered and not replaced, in the order of their
    registrations. -/
theorem aliases_registerAliases_ofTargets (reserved : ProtectedTargets)
    (calls : List (String × String)) :
    ((ofTargets reserved).registerAliases calls).aliases = standing (accepted calls) := by
  rw [aliases_registerAliases_eq]
  rfl

/-- The table that registrations come to: normal spellings, one route from each prefix, and these
    are the last ones that were accepted, in the order in which they were. -/
structure IsTableOf (calls table : List (String × String)) : Prop where
  kept : AreKept table
  mem_iff (route : String × String) : route ∈ table ↔ IsLast (accepted calls) route
  order_iff (front back : String × String) :
    [front, back].Sublist table ↔ LastInOrder (accepted calls) front back

theorem isTableOf_registerAliases (reserved : ProtectedTargets) (calls : List (String × String)) :
    IsTableOf calls ((ofTargets reserved).registerAliases calls).aliases := by
  refine ⟨areKept_nil.registerAliases calls, fun route => ?_, fun front back => ?_⟩
  · rw [aliases_registerAliases_ofTargets, mem_standing_iff]
  · rw [aliases_registerAliases_ofTargets, pair_sublist_standing_iff]

end Hosting.Namespace
