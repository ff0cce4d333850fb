import Hosting.Namespace

/-! # What protection hides from callers outside

    Both callers ask the same two places, the one that a path names and the one that its
    alias leads to. A caller outside is turned away at either of them if the path that is
    looked up there is protected. It is never sent on from the first to the second.

    - `Stands`, `aliasRoute`: the two places.
    - `Conceals`: the paths at which a caller outside is turned away.
    - `resolve_filtered`: what a caller outside gets is what the application itself gets, or
      nothing, and nothing in its place exactly at the concealed paths.
-/

namespace Hosting.Namespace

open VirtualPath

variable {m : Machine} {ns : Namespace} {path requested normal : String}

/-! ### The two places -/

/-- Something stands below the base where the normal path says. -/
def Stands (m : Machine) (ns : Namespace) (normal : String) : Prop :=
  ∃ base kind, ns.base = some base ∧ m.kindOf (placeBelow base.contentRoot normal) = .ok kind

/-- The normal path that the alias of a normal path leads to. -/
def aliasRoute (ns : Namespace) (normal : String) : Option String :=
  (aliasFor ns.aliases normal).bind normalize

theorem locate_eq_none_iff : ns.locate m requested normal = none ↔ ¬ ns.Stands m normal := by
  unfold locate Stands
  cases hbase : ns.base with
  | none => simp
  | some base => cases hkind : m.kindOf (placeBelow base.contentRoot normal) <;> simp [hkind]

/-- What is found stands at the place of the normal path below the base, and is what it is said to
    be. -/
theorem locate_eq_some_iff {r : Resource} :
    ns.locate m requested normal = some r ↔
      ∃ base, ns.base = some base ∧ r.virtualPath = requested ∧
        r.path = placeBelow base.contentRoot normal ∧ m.kindOf r.path = .ok r.kind := by
  obtain ⟨virtualPath, path, kind⟩ := r
  unfold locate
  cases ns.base with
  | none => simp
  | some base =>
    cases hkind : m.kindOf (placeBelow base.contentRoot normal) with
    | error e =>
      refine iff_of_false (fun h => by simp [hkind] at h) ?_
      rintro ⟨_, hbase, -, rfl, hfound⟩
      obtain rfl := Option.some.inj hbase
      rw [hkind] at hfound
      cases hfound
    | ok found =>
      simp only [hkind, Option.some.injEq, Resource.mk.injEq]
      constructor
      · rintro ⟨rfl, rfl, rfl⟩
        exact ⟨base, rfl, rfl, rfl, hkind⟩
      · rintro ⟨_, rfl, rfl, rfl, hfound⟩
        exact ⟨rfl, rfl, Except.ok.inj (hkind.symm.trans hfound)⟩

/-- The application itself looks at the path and then at the route, and nothing is checked. -/
theorem resolve_inside (hn : normalize path = some normal) :
    ns.resolve m path .inside =
      (ns.locate m normal normal).or ((ns.aliasRoute normal).bind (ns.locate m normal)) := by
  have hopen (p : String) : ns.hides .inside p = false := rfl
  unfold resolve aliasRoute
  simp only [hn, hopen, Bool.false_eq_true, if_false]
  cases ns.locate m normal normal with
  | some found => rfl
  | none => cases (aliasFor ns.aliases normal).bind normalize <;> rfl

/-! ### Concealed paths -/

/-- A caller outside is turned away: the path is protected, or nothing stands there and its route
    is protected. -/
def Conceals (m : Machine) (ns : Namespace) (normal : String) : Prop :=
  ns.isProtected normal = true ∨
    (¬ ns.Stands m normal ∧
      ∃ route, ns.aliasRoute normal = some route ∧ ns.isProtected route = true)

theorem hides_outside : ns.hides .outside normal = ns.isProtected normal := rfl

theorem resolve_of_conceals (hn : normalize path = some normal) (hc : ns.Conceals m normal) :
    ns.resolve m path .outside = none := by
  unfold resolve
  rcases hc with hprotected | ⟨hnothing, route, hroute, hprotected⟩
  · simp only [hn, hides_outside, hprotected, if_true]
  · unfold aliasRoute at hroute
    simp only [hn, hides_outside, locate_eq_none_iff.2 hnothing, hroute, hprotected, if_true, ite_self]

theorem resolve_of_not_conceals (hn : normalize path = some normal)
    (hc : ¬ ns.Conceals m normal) :
    ns.resolve m path .outside = ns.resolve m path .inside := by
  obtain ⟨hvisible, hroutes⟩ := not_or.1 hc
  rw [resolve_inside hn, resolve]
  simp only [hn, hides_outside, Bool.eq_false_iff.2 hvisible, Bool.false_eq_true, if_false]
  cases hdirect : ns.locate m normal normal with
  | some found => rfl
  | none =>
    -- nothing stands there, so the route is not protected if there is one
    have hnothing := locate_eq_none_iff.1 hdirect
    simp only [Option.none_or]
    unfold aliasRoute at hroutes ⊢
    cases hroute : (aliasFor ns.aliases normal).bind normalize with
    | none => rfl
    | some route =>
      have hshown : ns.isProtected route = false := Bool.eq_false_iff.2 fun hprotected =>
        hroutes ⟨hnothing, route, hroute, hprotected⟩
      simp only [hshown, Bool.false_eq_true, if_false, Option.bind_some]

theorem exists_normal_of_resolve {caller : Caller} (h : (ns.resolve m path caller).isSome = true) :
    ∃ normal, normalize path = some normal := by
  cases hn : normalize path with
  | some normal => exact ⟨normal, rfl⟩
  | none =>
    unfold resolve at h
    rw [hn] at h
    cases h

theorem not_conceals_of_resolve {r : Resource} (hn : normalize path = some normal)
    (h : ns.resolve m path .outside = some r) : ¬ ns.Conceals m normal := by
  intro hc
  rw [resolve_of_conceals hn hc] at h
  cases h

/-- Nothing else is found in place of what is hidden. -/
theorem resolve_inside_of_outside {r : Resource} (h : ns.resolve m path .outside = some r) :
    ns.resolve m path .inside = some r := by
  obtain ⟨normal, hn⟩ := exists_normal_of_resolve (Option.isSome_of_mem h)
  rw [← resolve_of_not_conceals hn (not_conceals_of_resolve hn h), h]

/-- A caller outside gets what the application itself gets, or nothing. Something is kept from it
    exactly if the path is protected, or if nothing stands there and its route is protected. -/
theorem resolve_filtered (m : Machine) (ns : Namespace) (path : String) :
    (ns.resolve m path .outside = none ∨
        ns.resolve m path .outside = ns.resolve m path .inside) ∧
      (ns.resolve m path .outside = none ∧ (ns.resolve m path .inside).isSome = true ↔
        (ns.resolve m path .inside).isSome = true ∧
          ∃ normal, normalize path = some normal ∧ ns.Conceals m normal) := by
  constructor
  · cases hout : ns.resolve m path .outside with
    | none => exact .inl rfl
    | some r => exact .inr (resolve_inside_of_outside hout).symm
  · constructor
    · rintro ⟨hnone, hsome⟩
      obtain ⟨normal, hn⟩ := exists_normal_of_resolve hsome
      refine ⟨hsome, normal, hn, ?_⟩
      -- what is not concealed is given to both
      by_cases hc : ns.Conceals m normal
      · exact hc
      · rw [← resolve_of_not_conceals hn hc, hnone] at hsome
        cases hsome
    · rintro ⟨hsome, normal, hn, hc⟩
      exact ⟨resolve_of_conceals hn hc, hsome⟩

end Hosting.Namespace
