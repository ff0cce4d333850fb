import Hosting.Proofs.Host.Tables
import Hosting.Proofs.Lookup.Ownership

/-! # The innermost of several owners

    Of the started contexts that a request path matches, one lies below all the others, and
    the search for the longest path finds it. Two matching paths are nested and never of one
    length, so there is nothing to choose between.

    - `Matches`, `Precedes`: owning a request path and lying above a context path, told by
      the spellings alone.
    - `ownerAmong`: the search in any list of contexts. `ownerAmong_eq_some_iff` says that it
      finds the innermost, `ownerAmong_congr` that the list counts only by the started
      contexts in it.
    - `findContext_innermost`: what this comes to for the table of a host.
-/

namespace Hosting

namespace ContextPath

variable {p q : ContextPath}

/-- The context path is the root, or the request path is the context path or goes on behind it with
    a slash. -/
def Matches (p : ContextPath) (uri : String) : Prop :=
  p.isRoot = true ∨ uri = p.text ∨ ∃ rest, uri = p.text ++ "/" ++ rest

/-- The first path is the root, or the second goes on behind it with a slash. -/
def Precedes (p q : ContextPath) : Prop :=
  p.isRoot = true ∨ ∃ rest, q.text = p.text ++ "/" ++ rest

theorem owns_iff_matches {uri : String} : p.owns uri = true ↔ p.Matches uri := by
  rw [owns_iff]
  refine or_congr_right ⟨?_, ?_⟩
  · rintro ⟨rest, huri, hseg⟩
    -- what is left is empty, or it is a slash and something more
    rcases startsSegment_iff.1 hseg with rfl | ⟨more, rfl⟩
    · refine .inl (String.toList_inj.1 ?_)
      rw [huri, List.append_nil]
    · refine .inr ⟨.ofList more, String.toList_inj.1 ?_⟩
      rw [huri]
      simp [show "/".toList = ['/'] from rfl]
  · rintro (rfl | ⟨rest, rfl⟩)
    · exact ⟨[], by simp, rfl⟩
    · exact ⟨'/' :: rest.toList, by simp [show "/".toList = ['/'] from rfl], rfl⟩

theorem above_iff_precedes (hne : p ≠ q) : p.Above q ↔ p.Precedes q := by
  unfold Above Precedes
  rw [owns_iff_matches, Matches]
  have htext : q.text ≠ p.text := fun h => hne (ext_text h).symm
  constructor
  · rintro ⟨-, hroot | heq | hrest⟩
    · exact .inl hroot
    · exact absurd heq htext
    · exact .inr hrest
  · rintro (hroot | hrest)
    · exact ⟨hne, .inl hroot⟩
    · exact ⟨hne, .inr (.inr hrest)⟩

end ContextPath

namespace Host

/-! ### Any list of contexts -/

/-- The context with the longest path, of those in a list that are started and own the request
    path. -/
def ownerAmong (contexts : List Context) (uri : String) : Option Context :=
  longest (contexts.filter fun c => c.state.isAvailable && c.path.owns uri)

/-- The context that a request path belongs to, of those in a list. -/
structure IsInnermost (contexts : List Context) (uri : String) (c : Context) : Prop where
  mem : c ∈ contexts
  started : c.state = .started
  hit : c.path.Matches uri
  /-- All others that could be meant lie above it. -/
  below (d : Context) : d ∈ contexts → d.state = .started → d.path.Matches uri → d ≠ c →
    d.path.Precedes c.path

/-- No two started contexts in the list have one path. -/
def DistinctPaths (contexts : List Context) : Prop :=
  ∀ c ∈ contexts, ∀ d ∈ contexts, c.state = .started → d.state = .started → c.path = d.path →
    c = d

section Lists

variable {contexts others : List Context} {uri : String} {c : Context}

theorem mem_owners_iff :
    (c ∈ contexts.filter fun c => c.state.isAvailable && c.path.owns uri) ↔
      c ∈ contexts ∧ c.state = .started ∧ c.path.Matches uri := by
  rw [List.mem_filter, Bool.and_eq_true, ContextState.isAvailable_iff,
    ContextPath.owns_iff_matches]

theorem ownerAmong_eq_none_iff :
    ownerAmong contexts uri = none ↔
      ∀ c ∈ contexts, c.state = .started → ¬ c.path.Matches uri := by
  unfold ownerAmong
  rw [longest_eq_none_iff, List.eq_nil_iff_forall_not_mem]
  simp only [mem_owners_iff, not_and]

theorem isInnermost_of_ownerAmong (hdistinct : DistinctPaths contexts)
    (h : ownerAmong contexts uri = some c) : IsInnermost contexts uri c := by
  obtain ⟨hmem, hmax⟩ := longest_spec h
  obtain ⟨hin, hstate, hhit⟩ := mem_owners_iff.1 hmem
  refine ⟨hin, hstate, hhit, fun d hd hdstate hdhit hne => ?_⟩
  have hpath : d.path ≠ c.path := fun heq => hne (hdistinct d hd c hin hdstate hstate heq)
  -- both own the request path and `d` is not the longer, so its path owns the other
  have howns := ContextPath.owns_text_of_size_le (ContextPath.owns_iff_matches.2 hdhit)
    (ContextPath.owns_iff_matches.2 hhit) (hmax d (mem_owners_iff.2 ⟨hd, hdstate, hdhit⟩))
  exact (ContextPath.above_iff_precedes hpath).1 ⟨hpath, howns⟩

/-- There is no second innermost context. -/
theorem IsInnermost.unique (hdistinct : DistinctPaths contexts) {d : Context}
    (hc : IsInnermost contexts uri c) (hd : IsInnermost contexts uri d) : c = d := by
  refine Classical.byContradiction fun hne => ?_
  have hpath : c.path ≠ d.path := fun heq =>
    hne (hdistinct c hc.mem d hd.mem hc.started hd.started heq)
  -- each would lie above the other
  have hcd := hd.below c hc.mem hc.started hc.hit hne
  have hdc := hc.below d hd.mem hd.started hd.hit (Ne.symm hne)
  exact ContextPath.not_above_of_above ((ContextPath.above_iff_precedes hpath).2 hcd)
    ((ContextPath.above_iff_precedes hpath.symm).2 hdc)

theorem ownerAmong_eq_some_iff (hdistinct : DistinctPaths contexts) :
    ownerAmong contexts uri = some c ↔ IsInnermost contexts uri c := by
  refine ⟨isInnermost_of_ownerAmong hdistinct, fun hc => ?_⟩
  cases hfound : ownerAmong contexts uri with
  | none => exact absurd hc.hit (ownerAmong_eq_none_iff.1 hfound c hc.mem hc.started)
  | some d =>
    have hd := isInnermost_of_ownerAmong hdistinct hfound
    rw [hd.unique hdistinct hc]

/-- Neither the order of a list nor the contexts in it that are not started make a difference. -/
theorem ownerAmong_congr (hdistinct : DistinctPaths contexts)
    (hsame : ∀ c, c.state = .started → (c ∈ others ↔ c ∈ contexts)) :
    ownerAmong others uri = ownerAmong contexts uri := by
  have hdistinct' : DistinctPaths others := fun c hc d hd hcs hds =>
    hdistinct c ((hsame c hcs).1 hc) d ((hsame d hds).1 hd) hcs hds
  apply Option.ext
  intro c
  rw [ownerAmong_eq_some_iff hdistinct, ownerAmong_eq_some_iff hdistinct']
  constructor
  · intro h
    exact ⟨(hsame c h.started).1 h.mem, h.started, h.hit, fun d hd hs =>
      h.below d ((hsame d hs).2 hd) hs⟩
  · intro h
    exact ⟨(hsame c h.started).2 h.mem, h.started, h.hit, fun d hd hs =>
      h.below d ((hsame d hs).1 hd) hs⟩

end Lists

/-! ### The table of a host -/

theorem distinctPaths_values {h : Host} (hk : h.Keyed) : DistinctPaths h.contexts.values := by
  intro c hc d hd _ _ hpath
  obtain ⟨p, hp⟩ := PathTable.mem_values_iff.1 hc
  obtain ⟨q, hq⟩ := PathTable.mem_values_iff.1 hd
  rw [hk.context_path hp, hk.context_path hq] at hpath
  rw [hpath, hq] at hp
  exact (Option.some.inj hp).symm

/-- A request path belongs to no context exactly if it matches none that is started, and otherwise
    to the one context that lies below all others that it matches. The same is found in any
    list that holds the same started contexts. -/
theorem findContext_innermost {h : Host} (hreach : h.Reachable) (uri : String) :
    (h.findContext uri = none ↔
        ∀ c ∈ h.contexts.values, c.state = .started → ¬ c.path.Matches uri) ∧
      (∀ c, h.findContext uri = some c ↔ IsInnermost h.contexts.values uri c) ∧
      ∀ contexts : List Context,
        (∀ c, c.state = .started → (c ∈ contexts ↔ c ∈ h.contexts.values)) →
          ownerAmong contexts uri = h.findContext uri := by
  have hdistinct := distinctPaths_values (keyed_of_reachable hreach)
  have hfind : h.findContext uri = ownerAmong h.contexts.values uri := rfl
  rw [hfind]
  exact ⟨ownerAmong_eq_none_iff, fun _ => ownerAmong_eq_some_iff hdistinct,
    fun _ hsame => ownerAmong_congr hdistinct hsame⟩

/-- A root application, one below it and one below that, and a last one that is not started. -/
def layered : Host :=
  let outer := ((Sample.host.deploy (.ofBase "/" "a")).1.deploy (.ofBase "/é" "a")).1
  let started := ((outer.deploy (.ofBase "/é/in" "a")).1.startAll Sample.machine).1
  (started.deploy (.ofBase "/é/in/new" "a")).1

theorem reachable_layered : layered.Reachable := by
  refine Reachable.step ?_ (.deploy _ _)
  refine Reachable.step ?_ (step_startAll _ Sample.machine)
  refine Reachable.step ?_ (.deploy _ _)
  exact (Sample.reachable_host.step (.deploy _ _)).step (.deploy _ _)

/-- Three of the paths match, and the longest match of all is not started. -/
theorem findContext_innermost_layered :
    layered.Reachable ∧
      (layered.findContext "/é/in/new/x").map (·.path.text) = some "/é/in" ∧
      (layered.findContext "/é/in/new/x" = none ↔
        ∀ c ∈ layered.contexts.values, c.state = .started → ¬ c.path.Matches "/é/in/new/x") ∧
      (∀ c, layered.findContext "/é/in/new/x" = some c ↔
        IsInnermost layered.contexts.values "/é/in/new/x" c) ∧
      ∀ contexts : List Context,
        (∀ c, c.state = .started → (c ∈ contexts ↔ c ∈ layered.contexts.values)) →
          ownerAmong contexts "/é/in/new/x" = layered.findContext "/é/in/new/x" := by
  have hfound : (layered.findContext "/é/in/new/x").map (·.path.text) = some "/é/in" := by
    decide +kernel
  exact ⟨reachable_layered, hfound, findContext_innermost reachable_layered "/é/in/new/x"⟩

end Host

end Hosting
