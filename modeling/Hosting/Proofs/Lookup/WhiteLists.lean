import Hosting.Proofs.Host.Tables
import Hosting.Proofs.Lookup.Ownership
import Mathlib.Algebra.Order.BigOperators.Group.List
import Mathlib.Algebra.Order.Group.Nat

/-! # What a white list denies

    A lookup from inside an application first finds the owner of the request path and then
    asks the white list of the requester. The list is asked about the request path and not
    about the owner, and every request path below the requester counts as its own, also one
    that belongs to another context further down.

    - `getContext_of_ownedElsewhere`, `getContext_of_not_ownedElsewhere`: the answer to a
      lookup of a path that is not listed.
    - `whiteList_sound_iff`: when a list holds for every request path.
    - `getContext_agree_iff`: when two hosts answer a requester alike.
-/

namespace Hosting

/-- What counts as inside: `/` for the root, and for another context all that it would own. -/
theorem WhiteList.isWithin_text {p : ContextPath} {uri : String} :
    isWithin p.text uri = true ↔
      (p.isRoot = true ∧ uri = "/") ∨ (p.isRoot = false ∧ p.owns uri = true) := by
  have hne : p.text ≠ "" := by
    intro h
    apply p.toList_text_ne_nil
    rw [h]
    rfl
  unfold isWithin ContextPath.owns
  cases hroot : p.isRoot with
  | true =>
    have hp : p.text = "/" := by
      rw [ContextPath.isRoot_iff.1 hroot]
      rfl
    simp [hp]
  | false =>
    have hp : p.text ≠ "/" := by
      intro h
      simp [ContextPath.isRoot, h] at hroot
    cases ContextPath.remainder? p.text.toList uri.toList <;> simp [hp, hne]

namespace Host

variable {h : Host} {p : ContextPath} {r t : Context} {entries : List String}
  {ordered : entries.Pairwise fun a b => a < b} {uri : String}

/-! ### Lookups of paths that are not listed -/

/-- Another started context than the one at `p` owns the request path. -/
def OwnedElsewhere (h : Host) (p : ContextPath) (uri : String) : Prop :=
  ∃ t, h.findContext uri = some t ∧ t.path ≠ p

theorem permits_restricted (hw : r.whiteList = .restricted entries ordered) (hu : uri ∉ entries)
    (requesting : String) :
    r.whiteList.permits requesting uri = WhiteList.isWithin requesting uri := by
  rw [hw]
  simp [WhiteList.permits, hu]

/-- A context that is found is the one that is registered under its path. -/
theorem eq_of_findContext (hk : h.Keyed) (hr : h.contexts.get? p = some r)
    (ht : h.findContext uri = some t) (hpath : t.path = p) : t = r := by
  obtain ⟨⟨q, hq⟩, -⟩ := findContext_spec ht
  have hqt := hk.context_path hq
  rw [← hqt, hpath, hr] at hq
  exact (Option.some.inj hq).symm

/-- Only the root owns `/`. -/
theorem path_of_findContext_root (hroot : p.isRoot = true) (ht : h.findContext "/" = some t) :
    t.path = p := by
  obtain ⟨-, -, howns, -⟩ := findContext_spec ht
  rw [ContextPath.isRoot_iff.1 hroot]
  exact ContextPath.isRoot_iff.1 (ContextPath.isRoot_of_owns_root howns)

/-- A foreign owner is given away exactly below a requester that is not the root. -/
theorem getContext_of_ownedElsewhere (hk : h.Keyed) (hr : h.contexts.get? p = some r)
    (hw : r.whiteList = .restricted entries ordered) (hu : uri ∉ entries)
    (ht : h.findContext uri = some t) (hne : t.path ≠ p) :
    h.getContext p uri = if p.isRoot = false ∧ p.owns uri = true then some t else none := by
  have hpath : r.path = p := hk.context_path hr
  have hnotRoot : ¬ (p.isRoot = true ∧ uri = "/") := by
    rintro ⟨hroot, rfl⟩
    exact hne (path_of_findContext_root hroot ht)
  unfold getContext
  simp only [hr, ht, hpath, permits_restricted hw hu, decide_eq_false hne, Bool.false_or,
    WhiteList.isWithin_text, hnotRoot, false_or]

/-- Where no other context owns the path, the requester is answered with itself, if it is started
    and owns the path. -/
theorem getContext_of_not_ownedElsewhere (hk : h.Keyed) (hr : h.contexts.get? p = some r)
    (hnone : ¬ h.OwnedElsewhere p uri) :
    h.getContext p uri = if r.state = .started ∧ p.owns uri = true then some r else none := by
  have hpath : r.path = p := hk.context_path hr
  cases hfind : h.findContext uri with
  | none =>
    -- a requester that is started and owns the path would have been found
    have hnot : ¬ (r.state = .started ∧ p.owns uri = true) := by
      rintro ⟨hstate, howns⟩
      have := findContext_eq_none_iff.1 hfind p r hr hstate
      rw [hpath, howns] at this
      simp at this
    rw [if_neg hnot]
    unfold getContext
    simp only [hr, hfind]
  | some t =>
    have htp : t.path = p := by
      by_cases htp : t.path = p
      · exact htp
      · exact absurd ⟨t, hfind, htp⟩ hnone
    obtain rfl := eq_of_findContext hk hr hfind htp
    obtain ⟨-, hstate, howns, -⟩ := findContext_spec hfind
    rw [htp] at howns
    rw [if_pos ⟨hstate, howns⟩]
    unfold getContext
    simp only [hr, hfind, decide_true, Bool.true_or, if_true]

/-- A path that is not listed leads to another context exactly in this case. -/
theorem getContext_unlisted_iff (hk : h.Keyed) (hr : h.contexts.get? p = some r)
    (hw : r.whiteList = .restricted entries ordered) (hu : uri ∉ entries) :
    (h.getContext p uri = some t ∧ t.path ≠ p) ↔
      h.findContext uri = some t ∧ t.path ≠ p ∧ p.isRoot = false ∧ p.owns uri = true := by
  constructor
  · rintro ⟨hget, hne⟩
    by_cases helse : h.OwnedElsewhere p uri
    · obtain ⟨t', ht', hne'⟩ := helse
      rw [getContext_of_ownedElsewhere hk hr hw hu ht' hne'] at hget
      split at hget
      · next hbelow =>
        obtain rfl := Option.some.inj hget
        exact ⟨ht', hne, hbelow⟩
      · simp at hget
    · rw [getContext_of_not_ownedElsewhere hk hr helse] at hget
      split at hget
      · obtain rfl := Option.some.inj hget
        exact absurd (hk.context_path hr) hne
      · simp at hget
  · rintro ⟨hfind, hne, hbelow⟩
    rw [getContext_of_ownedElsewhere hk hr hw hu hfind hne, if_pos hbelow]
    exact ⟨rfl, hne⟩

/-! ### When a list holds -/

/-- One segment below every path there is a path that is not listed. -/
theorem exists_unlisted (start : String) (entries : List String) :
    ∃ name, '/' ∉ name.toList ∧ start ++ "/" ++ name ∉ entries := by
  -- a name that is longer than all entries together
  let total := (entries.map String.length).sum
  refine ⟨.ofList (List.replicate (total + 1) 'x'), by simp, fun hmem => ?_⟩
  have hle : (start ++ "/" ++ String.ofList (List.replicate (total + 1) 'x')).length ≤ total :=
    List.single_le_sum (fun n _ => Nat.zero_le n) _ (List.mem_map_of_mem hmem)
  simp only [String.length_append, String.length_ofList, List.length_replicate] at hle
  omega

/-- An owner of a path below the requester lies above or below the requester, and above only while
    the requester is not started. -/
theorem above_of_ownedElsewhere (hk : h.Keyed) (hr : h.contexts.get? p = some r)
    (hfind : h.findContext uri = some t) (hne : t.path ≠ p) (howns : p.owns uri = true) :
    p.Above t.path ∨ (r.state ≠ .started ∧ t.path.Above p) := by
  obtain ⟨-, -, htowns, hmax⟩ := findContext_spec hfind
  rcases ContextPath.eq_or_above_or_above howns htowns with heq | habove | habove
  · exact absurd heq.symm hne
  · exact .inl habove
  · refine .inr ⟨fun hstate => ?_, habove⟩
    -- a started requester would be an owner further in
    have hpath := hk.context_path hr
    have hback := hmax p r hr hstate (by rw [hpath]; exact howns)
    rw [hpath] at hback
    exact ContextPath.not_above_of_above habove ⟨Ne.symm hne, hback⟩

/-- Of the paths that a started context owns, each belongs to this context or to one inside it. -/
theorem exists_found_within (hk : h.Keyed) {q : ContextPath} (hq : h.contexts.get? q = some t)
    (hstate : t.state = .started) (howns : q.owns uri = true) :
    ∃ f, h.findContext uri = some f ∧ q.owns f.path.text = true ∧ f.state = .started ∧
      h.contexts.get? f.path = some f := by
  have htq := hk.context_path hq
  cases hf : h.findContext uri with
  | none =>
    have := findContext_eq_none_iff.1 hf q t hq hstate
    rw [htq, howns] at this
    simp at this
  | some f =>
    obtain ⟨⟨q', hq'⟩, hfstate, -, hmax⟩ := findContext_spec hf
    have hfq := hmax q t hq hstate (by rw [htq]; exact howns)
    rw [htq] at hfq
    have := hk.context_path hq'
    exact ⟨f, rfl, hfq, hfstate, by rw [this]; exact hq'⟩

/-- Some path below the requester that is not listed has a foreign owner, if a started context lies
    below the requester, or above it while the requester is not started. -/
theorem exists_ownedElsewhere (hk : h.Keyed) (hr : h.contexts.get? p = some r) {q : ContextPath}
    (hq : h.contexts.get? q = some t) (hstate : t.state = .started)
    (hrel : p.Above q ∨ (r.state ≠ .started ∧ q.Above p)) (entries : List String) :
    ∃ uri, uri ∉ entries ∧ p.owns uri = true ∧ h.OwnedElsewhere p uri := by
  -- below the inner of the two, both own the path
  rcases hrel with ⟨hpq, hpowns⟩ | ⟨hrstate, hqp, hqowns⟩
  · obtain ⟨name, -, hname⟩ := exists_unlisted q.text entries
    have hqname := q.owns_append_slash name
    obtain ⟨f, hf, hqf, -, -⟩ := exists_found_within hk hq hstate hqname
    refine ⟨_, hname, ContextPath.owns_trans hpowns hqname, f, hf, fun hfp => ?_⟩
    rw [hfp] at hqf
    exact ContextPath.not_above_of_above ⟨hpq, hpowns⟩ ⟨Ne.symm hpq, hqf⟩
  · obtain ⟨name, -, hname⟩ := exists_unlisted p.text entries
    have hpname := p.owns_append_slash name
    obtain ⟨f, hf, -, hfstate, hfreg⟩ :=
      exists_found_within hk hq hstate (ContextPath.owns_trans hqowns hpname)
    refine ⟨_, hname, hpname, f, hf, fun hfp => ?_⟩
    rw [hfp, hr] at hfreg
    obtain rfl := Option.some.inj hfreg
    exact hrstate hfstate

/-- A white list holds for every request path if the requester is the root. Otherwise it does
    exactly if no started context lies below the requester, and none above it while the
    requester is not started. -/
theorem whiteList_sound_iff (hreach : h.Reachable) (hr : h.contexts.get? p = some r)
    (hw : r.whiteList = .restricted entries ordered) :
    (∀ uri t, h.getContext p uri = some t → t.path ≠ p → uri ∈ entries) ↔
      p.isRoot = true ∨
        ∀ q t, h.contexts.get? q = some t → t.state = .started →
          ¬ p.Above q ∧ (r.state ≠ .started → ¬ q.Above p) := by
  have hk := keyed_of_reachable hreach
  constructor
  · intro hsound
    cases hroot : p.isRoot with
    | true => exact .inl rfl
    | false =>
      refine .inr fun q t hq hstate => ?_
      have hnone : ¬ (p.Above q ∨ (r.state ≠ .started ∧ q.Above p)) := by
        intro hrel
        obtain ⟨uri, hu, howns, f, hf, hne⟩ := exists_ownedElsewhere hk hr hq hstate hrel entries
        obtain ⟨hget, -⟩ := (getContext_unlisted_iff hk hr hw hu).2 ⟨hf, hne, hroot, howns⟩
        exact hu (hsound uri f hget hne)
      exact ⟨fun h => hnone (.inl h), fun h h' => hnone (.inr ⟨h, h'⟩)⟩
  · intro hcond uri t hget hne
    by_cases hu : uri ∈ entries
    · exact hu
    · obtain ⟨hfind, -, hroot, howns⟩ := (getContext_unlisted_iff hk hr hw hu).1 ⟨hget, hne⟩
      rcases hcond with habs | hcond
      · rw [hroot] at habs
        simp at habs
      · obtain ⟨⟨q, hq⟩, hstate, -⟩ := findContext_spec hfind
        obtain rfl := hk.context_path hq
        obtain ⟨hbelow, habove⟩ := hcond _ _ hq hstate
        rcases above_of_ownedElsewhere hk hr hfind hne howns with h' | ⟨hrstate, h'⟩
        · exact absurd h' hbelow
        · exact absurd h' (habove hrstate)

/-- An application that may look up nothing, and another one inside it. Both are started. -/
def nested : Host :=
  let outer := { Descriptor.ofBase "/A" "a" with whiteList := some [] }
  ((((Sample.host.deploy outer).1.deploy (.ofBase "/A/in" "a")).1).startAll Sample.machine).1

theorem reachable_nested : nested.Reachable := by
  refine Reachable.step ?_ (step_startAll _ Sample.machine)
  refine Reachable.step ?_ (.deploy _ _)
  exact Sample.reachable_host.step (.deploy _ _)

theorem get?_nested : ∃ r, nested.contexts.get? Sample.pathA = some r ∧
    r.whiteList = .restricted [] .nil ∧ r.state = .started := by
  have hget : (nested.contexts.get? Sample.pathA).map (fun r => (r.whiteList, r.state)) =
      some (.restricted [] .nil, .started) := by
    rfl
  obtain ⟨r, hr, hpair⟩ := Option.map_eq_some_iff.1 hget
  obtain ⟨hw, hstate⟩ := Prod.mk.inj hpair
  exact ⟨r, hr, hw, hstate⟩

theorem whiteList_sound_iff_nested : ∃ r, nested.Reachable ∧
    nested.contexts.get? Sample.pathA = some r ∧ r.whiteList = .restricted [] .nil ∧
    ((∀ uri t, nested.getContext Sample.pathA uri = some t → t.path ≠ Sample.pathA →
        uri ∈ ([] : List String)) ↔
      Sample.pathA.isRoot = true ∨
        ∀ q t, nested.contexts.get? q = some t → t.state = .started →
          ¬ Sample.pathA.Above q ∧ (r.state ≠ .started → ¬ q.Above Sample.pathA)) := by
  obtain ⟨r, hr, hw, -⟩ := get?_nested
  exact ⟨r, reachable_nested, hr, hw, whiteList_sound_iff reachable_nested hr hw⟩

/-- An empty list does not keep a requester from the application inside it. -/
theorem whiteList_not_sound :
    ¬ ∀ (h : Host) (p : ContextPath) (r t : Context) (entries : List String)
        (ordered : entries.Pairwise fun a b => a < b) (uri : String),
      h.Reachable → h.contexts.get? p = some r → r.whiteList = .restricted entries ordered →
      h.getContext p uri = some t → t.path ≠ p → uri ∈ entries := by
  intro hsound
  obtain ⟨r, hr, hw, -⟩ := get?_nested
  have hget : (nested.getContext Sample.pathA "/A/in/x").map (·.path.text) = some "/A/in" := by
    decide +kernel
  obtain ⟨t, ht, htext⟩ := Option.map_eq_some_iff.1 hget
  have hne : t.path ≠ Sample.pathA := by
    intro heq
    rw [heq] at htext
    exact absurd htext (by decide)
  simpa using hsound nested Sample.pathA r t [] .nil _ reachable_nested hr hw ht hne

/-! ### What two hosts tell a requester -/

/-- Away from what other contexts own below it, a requester is answered with nothing exactly if
    another context owns the path or the requester itself cannot serve it. -/
theorem getContext_eq_none_iff (hk : h.Keyed) (hr : h.contexts.get? p = some r)
    (hw : r.whiteList = .restricted entries ordered) (hu : uri ∉ entries)
    (hinside : p.isRoot = false → p.owns uri = true → ¬ h.OwnedElsewhere p uri) :
    (h.getContext p uri = none ∨ h.getContext p uri = some r) ∧
      (h.getContext p uri = none ↔
        h.OwnedElsewhere p uri ∨ ¬ (r.state = .started ∧ p.owns uri = true)) := by
  by_cases helse : h.OwnedElsewhere p uri
  · have hget : h.getContext p uri = none := by
      obtain ⟨t, ht, hne⟩ := helse
      rw [getContext_of_ownedElsewhere hk hr hw hu ht hne]
      exact if_neg fun ⟨hroot, howns⟩ => hinside hroot howns ⟨t, ht, hne⟩
    exact ⟨.inl hget, iff_of_true hget (.inl helse)⟩
  · rw [getContext_of_not_ownedElsewhere hk hr helse]
    by_cases hserves : r.state = .started ∧ p.owns uri = true
    · rw [if_pos hserves]
      exact ⟨.inr rfl, iff_of_false (by simp) fun h => h.elim helse fun h => h hserves⟩
    · rw [if_neg hserves]
      exact ⟨.inl rfl, iff_of_true rfl (.inr hserves)⟩

/-- Two hosts that hold the same requester give it the same answer for a path that is not listed,
    itself or nothing. Only the root can tell them apart: it is answered with itself where
    no other context owns the path, and with nothing where one does. -/
theorem getContext_agree_iff {h₁ h₂ : Host} {r₁ r₂ : Context} (hreach₁ : h₁.Reachable)
    (hreach₂ : h₂.Reachable) (hr₁ : h₁.contexts.get? p = some r₁)
    (hr₂ : h₂.contexts.get? p = some r₂) (hstate : r₁.state = r₂.state)
    (hw₁ : r₁.whiteList = .restricted entries ordered)
    (hw₂ : r₂.whiteList = .restricted entries ordered) (hu : uri ∉ entries)
    (hinside : p.isRoot = false → p.owns uri = true →
      ¬ h₁.OwnedElsewhere p uri ∧ ¬ h₂.OwnedElsewhere p uri) :
    (h₁.getContext p uri = none ∨ h₁.getContext p uri = some r₁) ∧
      (h₂.getContext p uri = none ∨ h₂.getContext p uri = some r₂) ∧
      ((h₁.getContext p uri = none ↔ h₂.getContext p uri = none) ↔
        (p.isRoot = true → r₁.state = .started →
          (h₁.OwnedElsewhere p uri ↔ h₂.OwnedElsewhere p uri))) := by
  obtain ⟨hown₁, hnone₁⟩ := getContext_eq_none_iff (keyed_of_reachable hreach₁) hr₁ hw₁ hu
    fun hroot howns => (hinside hroot howns).1
  obtain ⟨hown₂, hnone₂⟩ := getContext_eq_none_iff (keyed_of_reachable hreach₂) hr₂ hw₂ hu
    fun hroot howns => (hinside hroot howns).2
  refine ⟨hown₁, hown₂, ?_⟩
  rw [hnone₁, hnone₂, ← hstate]
  -- the requester can serve the path in both hosts or in neither
  by_cases hserves : r₁.state = .started ∧ p.owns uri = true
  · simp only [hserves, and_self, not_true_eq_false, or_false, true_implies]
    refine ⟨fun h _ => h, fun h => ?_⟩
    cases hroot : p.isRoot with
    | true => exact h hroot
    | false =>
      obtain ⟨hnot₁, hnot₂⟩ := hinside hroot hserves.2
      exact iff_of_false hnot₁ hnot₂
  · -- a root that cannot serve is not started
    have hnot : p.isRoot = true → ¬ r₁.state = .started := by
      intro hroot hs
      refine hserves ⟨hs, ?_⟩
      rw [ContextPath.isRoot_iff.1 hroot]
      exact ContextPath.owns_root uri
    simp only [hserves, not_false_eq_true, or_true, iff_self, true_iff]
    exact fun hroot hs => absurd hs (hnot hroot)

/-- A root application that may look up nothing, alone. -/
def alone : Host :=
  let d := { Descriptor.ofBase "/" "a" with whiteList := some [] }
  ((Sample.host.deploy d).1.startAll Sample.machine).1

/-- The same application, and another one beside it. -/
def joined : Host :=
  ((alone.deploy (.ofBase "/B" "a")).1.startAll Sample.machine).1

theorem reachable_alone : alone.Reachable :=
  (Sample.reachable_host.step (.deploy _ _)).step (step_startAll _ Sample.machine)

theorem reachable_joined : joined.Reachable :=
  (reachable_alone.step (.deploy _ _)).step (step_startAll _ Sample.machine)

theorem get?_alone_joined : ∃ r₁ r₂, alone.contexts.get? .root = some r₁ ∧
    joined.contexts.get? .root = some r₂ ∧ r₁.state = r₂.state ∧
    r₁.whiteList = .restricted [] .nil ∧ r₂.whiteList = .restricted [] .nil := by
  have hget (h : Host) (hh : h = alone ∨ h = joined) :
      (h.contexts.get? .root).map (fun r => (r.whiteList, r.state)) =
        some (.restricted [] .nil, .started) := by
    rcases hh with rfl | rfl <;> rfl
  obtain ⟨r₁, hr₁, hpair₁⟩ := Option.map_eq_some_iff.1 (hget alone (.inl rfl))
  obtain ⟨r₂, hr₂, hpair₂⟩ := Option.map_eq_some_iff.1 (hget joined (.inr rfl))
  obtain ⟨hw₁, hs₁⟩ := Prod.mk.inj hpair₁
  obtain ⟨hw₂, hs₂⟩ := Prod.mk.inj hpair₂
  exact ⟨r₁, r₂, hr₁, hr₂, hs₁.trans hs₂.symm, hw₁, hw₂⟩

theorem getContext_agree_iff_root : ∃ r₁ r₂, alone.contexts.get? .root = some r₁ ∧
    joined.contexts.get? .root = some r₂ ∧
    (alone.getContext .root "/B/x" = none ∨ alone.getContext .root "/B/x" = some r₁) ∧
      (joined.getContext .root "/B/x" = none ∨ joined.getContext .root "/B/x" = some r₂) ∧
      ((alone.getContext .root "/B/x" = none ↔ joined.getContext .root "/B/x" = none) ↔
        (ContextPath.root.isRoot = true → r₁.state = .started →
          (alone.OwnedElsewhere .root "/B/x" ↔ joined.OwnedElsewhere .root "/B/x"))) := by
  obtain ⟨r₁, r₂, hr₁, hr₂, hstate, hw₁, hw₂⟩ := get?_alone_joined
  refine ⟨r₁, r₂, hr₁, hr₂, ?_⟩
  exact getContext_agree_iff reachable_alone reachable_joined hr₁ hr₂ hstate hw₁ hw₂ (by simp)
    fun hroot => absurd hroot (by decide)

/-- The root application learns from its answers whether there is an application at `/B`. -/
theorem getContext_not_agree :
    ¬ ∀ (h₁ h₂ : Host) (p : ContextPath) (r₁ r₂ : Context) (entries : List String)
        (ordered : entries.Pairwise fun a b => a < b) (uri : String),
      h₁.Reachable → h₂.Reachable → h₁.contexts.get? p = some r₁ →
      h₂.contexts.get? p = some r₂ → r₁.state = r₂.state →
      r₁.whiteList = .restricted entries ordered → r₂.whiteList = .restricted entries ordered →
      uri ∉ entries →
      (h₁.getContext p uri = none ∧ h₂.getContext p uri = none) ∨
        (h₁.getContext p uri = some r₁ ∧ h₂.getContext p uri = some r₂) := by
  intro hagree
  obtain ⟨r₁, r₂, hr₁, hr₂, hstate, hw₁, hw₂⟩ := get?_alone_joined
  have hself : (alone.getContext .root "/B/x").isSome = true := by
    decide +kernel
  have hdenied : (joined.getContext .root "/B/x").isSome = false := by
    decide +kernel
  rcases hagree alone joined .root r₁ r₂ [] .nil "/B/x" reachable_alone reachable_joined hr₁ hr₂
    hstate hw₁ hw₂ (by simp) with ⟨hnone, -⟩ | ⟨-, hsome⟩
  · rw [hnone] at hself
    simp at hself
  · rw [hsome] at hdenied
    simp at hdenied

end Host

end Hosting
