import Hosting.Proofs.Lookup.WhiteLists

/-! # What a white list grants

    An entry of a white list is compared with the request path as it is, not with the path
    of the context that owns it. So the entry `/other` grants the lookup of `/other` itself,
    and of nothing else that the context at `/other` owns.

    - `getContext_eq_owner_iff`: when a lookup is answered with the owner of the path.
    - `findContext_below`: every context owns a path that no given list holds.
    - `whiteList_complete_iff`: what the entry of a context grants, and when all that the
      context owns can be looked up.
-/

namespace Hosting

namespace ContextPath

variable {p q : ContextPath}

theorem eq_of_owns_text (hpq : p.owns q.text = true) (hqp : q.owns p.text = true) : p = q := by
  by_cases heq : p = q
  · exact heq
  · exact absurd ⟨Ne.symm heq, hqp⟩ (not_above_of_above ⟨heq, hpq⟩)

/-- What owns the path one segment below `q`, and is not that path, owns `q`. -/
theorem owns_text_of_owns_below {name : String} (hname : '/' ∉ name.toList)
    (howns : p.owns (q.text ++ "/" ++ name) = true) (hne : p.text ≠ q.text ++ "/" ++ name) :
    p.owns q.text = true := by
  rcases owns_iff.1 howns with hroot | ⟨rest, huri, hseg⟩
  · exact owns_iff.2 (.inl hroot)
  · rcases startsSegment_iff.1 hseg with rfl | ⟨more, rfl⟩
    · -- nothing is left, so it is the path below `q`
      refine absurd (String.toList_inj.1 ?_) hne
      rw [huri, List.append_nil]
    · have hsplit : q.text.toList ++ '/' :: name.toList = p.text.toList ++ '/' :: more := by
        rw [← huri]
        simp [show "/".toList = ['/'] from rfl]
      -- the slash behind `p` is the one behind `q`, or one before it
      rcases List.append_eq_append_iff.1 hsplit with ⟨mid, hp, hmid⟩ | ⟨mid, hq, hmid⟩
      · cases mid with
        | nil =>
          rw [List.append_nil] at hp
          rw [ext_text (String.toList_inj.1 hp)]
          exact owns_text_self q
        | cons c mid =>
          refine absurd ?_ hname
          rw [(List.cons.inj hmid).2]
          simp
      · refine owns_iff.2 (.inr ⟨mid, hq, ?_⟩)
        cases mid with
        | nil => rfl
        | cons c mid =>
          obtain rfl : '/' = c := (List.cons.inj hmid).1
          rfl

end ContextPath

namespace Host

variable {h : Host} {p q : ContextPath} {r t : Context} {entries : List String}
  {ordered : entries.Pairwise fun a b => a < b} {uri : String}

/-- The owner of a request path is given away if it is the requester, if the path is listed as it
    is, or if the path lies inside a requester other than the root. -/
theorem getContext_eq_owner_iff (hk : h.Keyed) (hr : h.contexts.get? p = some r)
    (hw : r.whiteList = .restricted entries ordered) (ht : h.findContext uri = some t) :
    h.getContext p uri = some t ↔
      t.path = p ∨ uri ∈ entries ∨ (p.isRoot = false ∧ p.owns uri = true) := by
  have hpath : r.path = p := hk.context_path hr
  have hgate : (t.path = r.path || r.whiteList.permits p.text uri) = true ↔
      t.path = p ∨ uri ∈ entries ∨ (p.isRoot = false ∧ p.owns uri = true) := by
    rw [hpath, hw, WhiteList.permits]
    simp only [Bool.or_eq_true, decide_eq_true_eq, List.contains_iff_mem, WhiteList.isWithin_text]
    constructor
    · rintro (heq | hlisted | ⟨hroot, rfl⟩ | hinside)
      · exact .inl heq
      · exact .inr (.inl hlisted)
      · exact .inl (path_of_findContext_root hroot ht)
      · exact .inr (.inr hinside)
    · rintro (heq | hlisted | hinside)
      · exact .inl heq
      · exact .inr (.inl hlisted)
      · exact .inr (.inr (.inr hinside))
  rw [← hgate, getContext]
  simp only [hr, ht, Option.ite_none_right_eq_some, and_true]

/-! ### Paths that a context owns -/

/-- A started context is found for the paths whose other owners all lie above it. -/
theorem findContext_eq_of_owns (hk : h.Keyed) (hq : h.contexts.get? q = some t)
    (hstate : t.state = .started) (howns : q.owns uri = true)
    (habove : ∀ p c, h.contexts.get? p = some c → p.owns uri = true → p.owns q.text = true) :
    h.findContext uri = some t := by
  obtain ⟨f, hfind, hback, -, hreg⟩ := exists_found_within hk hq hstate howns
  obtain ⟨-, -, hfowns, -⟩ := findContext_spec hfind
  -- each of the two owns the other
  have hpath := ContextPath.eq_of_owns_text (habove f.path f hreg hfowns) hback
  rw [hpath, hq] at hreg
  rw [hfind, hreg]

theorem findContext_text (hk : h.Keyed) (hq : h.contexts.get? q = some t)
    (hstate : t.state = .started) : h.findContext q.text = some t :=
  findContext_eq_of_owns hk hq hstate q.owns_text_self fun _ _ _ howns => howns

/-- One segment below a started context there is a path that it owns, that is not listed, and whose
    other owners all lie above it. -/
theorem findContext_below (hk : h.Keyed) (hq : h.contexts.get? q = some t)
    (hstate : t.state = .started) (entries : List String) :
    ∃ uri, uri ∉ entries ∧ h.findContext uri = some t ∧
      ∀ p c, h.contexts.get? p = some c → p.owns uri = true → p.owns q.text = true := by
  -- neither an entry nor the path of a context
  obtain ⟨name, hname, hfresh⟩ :=
    exists_unlisted q.text (entries ++ h.contexts.values.map (·.path.text))
  rw [List.mem_append, not_or] at hfresh
  obtain ⟨hunlisted, hunused⟩ := hfresh
  have habove : ∀ p c, h.contexts.get? p = some c →
      p.owns (q.text ++ "/" ++ name) = true → p.owns q.text = true := by
    intro p c hp howns
    refine ContextPath.owns_text_of_owns_below hname howns fun heq => hunused ?_
    rw [← heq, ← hk.context_path hp]
    exact List.mem_map_of_mem (PathTable.mem_values_iff.2 ⟨p, hp⟩)
  exact ⟨_, hunlisted,
    findContext_eq_of_owns hk hq hstate (q.owns_append_slash name) habove, habove⟩

/-! ### What an entry grants -/

/-- An entry that is the path of a started context grants the lookup of this path. Any other path
    that the context owns is granted only by an entry of its own, or because it lies inside
    the requester; so all of them can be looked up only by the context itself and by one
    above it that is not the root. -/
theorem whiteList_complete_iff (hreach : h.Reachable) (hr : h.contexts.get? p = some r)
    (hw : r.whiteList = .restricted entries ordered) (hq : h.contexts.get? q = some t)
    (hstate : t.state = .started) (hlisted : q.text ∈ entries) :
    h.getContext p q.text = some t ∧
      (∀ uri, h.findContext uri = some t →
        (h.getContext p uri = some t ↔
          q = p ∨ uri ∈ entries ∨ (p.isRoot = false ∧ p.owns uri = true))) ∧
      ((∀ uri, h.findContext uri = some t → h.getContext p uri = some t) ↔
        q = p ∨ (p.isRoot = false ∧ p.Above q)) := by
  have hk := keyed_of_reachable hreach
  have hpath : t.path = q := hk.context_path hq
  have hiff {uri : String} (ht : h.findContext uri = some t) :
      h.getContext p uri = some t ↔
        q = p ∨ uri ∈ entries ∨ (p.isRoot = false ∧ p.owns uri = true) := by
    rw [getContext_eq_owner_iff hk hr hw ht, hpath]
  refine ⟨(hiff (findContext_text hk hq hstate)).2 (.inr (.inl hlisted)), fun _ ht => hiff ht,
    fun hall => ?_, fun hcond uri ht => ?_⟩
  · -- a path that is not listed shows whether the context is granted
    obtain ⟨uri, hunlisted, hfind, habove⟩ := findContext_below hk hq hstate entries
    rcases (hiff hfind).1 (hall uri hfind) with heq | hmem | ⟨hroot, howns⟩
    · exact .inl heq
    · exact absurd hmem hunlisted
    · by_cases heq : q = p
      · exact .inl heq
      · exact .inr ⟨hroot, Ne.symm heq, habove p r hr howns⟩
  · obtain ⟨-, -, howns, -⟩ := findContext_spec ht
    rw [hpath] at howns
    rcases hcond with heq | ⟨hroot, -, hpowns⟩
    · exact (hiff ht).2 (.inl heq)
    · exact (hiff ht).2 (.inr (.inr ⟨hroot, ContextPath.owns_trans hpowns howns⟩))

/-- An application that lists the one beside it. Both are started. -/
def listing : Host :=
  let d := { Descriptor.ofBase "/A" "a" with whiteList := some ["/other"] }
  (((Sample.host.deploy d).1.deploy (.ofBase "/other" "a")).1.startAll Sample.machine).1

theorem reachable_listing : listing.Reachable :=
  ((Sample.reachable_host.step (.deploy _ _)).step (.deploy _ _)).step
    (step_startAll _ Sample.machine)

/-- The context path `/other`. -/
def listedPath : ContextPath := ⟨"/other", by decide⟩

theorem get?_listing : ∃ r t, listing.contexts.get? Sample.pathA = some r ∧
    r.whiteList = .restricted ["/other"] (by decide) ∧ listing.contexts.get? listedPath = some t ∧
    t.state = .started := by
  have hgetA : (listing.contexts.get? Sample.pathA).map (·.whiteList) =
      some (.restricted ["/other"] (by decide)) := by
    rfl
  have hgetB : (listing.contexts.get? listedPath).map (·.state) = some .started := by
    rfl
  obtain ⟨r, hr, hw⟩ := Option.map_eq_some_iff.1 hgetA
  obtain ⟨t, ht, hstate⟩ := Option.map_eq_some_iff.1 hgetB
  exact ⟨r, t, hr, hw, ht, hstate⟩

theorem whiteList_complete_iff_listing : ∃ r t,
    listing.contexts.get? Sample.pathA = some r ∧ listing.contexts.get? listedPath = some t ∧
    listing.getContext Sample.pathA listedPath.text = some t ∧
      (∀ uri, listing.findContext uri = some t →
        (listing.getContext Sample.pathA uri = some t ↔
          listedPath = Sample.pathA ∨ uri ∈ ["/other"] ∨
            (Sample.pathA.isRoot = false ∧ Sample.pathA.owns uri = true))) ∧
      ((∀ uri, listing.findContext uri = some t →
          listing.getContext Sample.pathA uri = some t) ↔
        listedPath = Sample.pathA ∨
          (Sample.pathA.isRoot = false ∧ Sample.pathA.Above listedPath)) := by
  obtain ⟨r, t, hr, hw, ht, hstate⟩ := get?_listing
  exact ⟨r, t, hr, ht,
    whiteList_complete_iff reachable_listing hr hw ht hstate (List.mem_singleton_self _)⟩

/-- A listed application cannot be looked up by a path below its own. -/
theorem whiteList_not_complete :
    ¬ ∀ (h : Host) (p : ContextPath) (r t : Context) (entries : List String)
        (ordered : entries.Pairwise fun a b => a < b) (uri : String),
      h.Reachable → h.contexts.get? p = some r → r.whiteList = .restricted entries ordered →
      t.state = .started → t.path.text ∈ entries → h.findContext uri = some t →
      h.getContext p uri = some t := by
  intro hcomplete
  obtain ⟨r, -, hr, hw, -, -⟩ := get?_listing
  have hfind : (listing.findContext "/other/x").map (fun t => (t.path.text, t.state)) =
      some ("/other", .started) := by
    decide +kernel
  have hdenied : (listing.getContext Sample.pathA "/other/x").isSome = false := by
    decide +kernel
  obtain ⟨t, ht, hpair⟩ := Option.map_eq_some_iff.1 hfind
  obtain ⟨htext, hstate⟩ := Prod.mk.inj hpair
  have hmem : t.path.text ∈ ["/other"] := by
    rw [htext]
    exact List.mem_singleton_self _
  have hgranted := hcomplete listing Sample.pathA r t ["/other"] (by decide) "/other/x"
    reachable_listing hr hw hstate hmem ht
  rw [hgranted] at hdenied
  cases hdenied

end Host

end Hosting
