import Hosting.Host.Deployment
import Hosting.Host.Startup
import Hosting.Proofs.Host.Runs
import Hosting.Proofs.Lookup.Callers
import Hosting.Proofs.Lookup.Ownership
import Hosting.Proofs.Path.Components

/-! # What requests from outside can reach

    A request goes through four steps: the owning context is chosen, its path is cut off,
    the rest is normalised, and the namespace looks directly and then by one alias hop. The
    protected names are checked for the normal path and again for the hop.

    - `resolve_outside_spec`: what the namespace finds for a caller outside, and which two
      paths were checked for it.
    - `serve_below_contentRoot`: the resource served lies below the content root of the
      owning context by plain segments, along a path that is not protected. Nothing is
      assumed about the aliases, or about how the host came to be.
-/

namespace Hosting

open VirtualPath

namespace Namespace

/-- A caller outside is answered from the normal path or from its alias hop, and neither of the
    two is protected. -/
theorem resolve_outside_spec {m : Machine} {ns : Namespace} {path : String} {r : Resource}
    (h : ns.resolve m path .outside = some r) :
    ∃ normal route, normalize path = some normal ∧
      (route = normal ∨ (aliasFor ns.aliases normal).bind normalize = some route) ∧
      ns.isProtected normal = false ∧ ns.isProtected route = false ∧
      ns.locate m normal route = some r := by
  obtain ⟨normal, hn⟩ := exists_normal_of_resolve (Option.isSome_of_mem h)
  -- nothing is concealed, so it is found as the application itself finds it
  have hc := not_conceals_of_resolve hn h
  rw [resolve_of_not_conceals hn hc, resolve_inside hn] at h
  obtain ⟨hvisible, hroutes⟩ := not_or.1 hc
  have hvisible := Bool.eq_false_iff.2 hvisible
  rcases Option.or_eq_some_iff.1 h with hdirect | ⟨hnothing, hhop⟩
  · exact ⟨normal, normal, hn, .inl rfl, hvisible, hvisible, hdirect⟩
  · obtain ⟨route, hroute, hfound⟩ := Option.bind_eq_some_iff.1 hhop
    have hshown : ns.isProtected route = false := Bool.eq_false_iff.2 fun hprotected =>
      hroutes ⟨locate_eq_none_iff.1 hnothing, route, hroute, hprotected⟩
    exact ⟨normal, route, hn, .inr hroute, hvisible, hshown, hfound⟩

end Namespace

namespace Host

/-- The request path is the path of the context with `rest` behind it, which starts a segment or
    is empty. In the root context all of the path is left. -/
def Splits (path : ContextPath) (uri rest : String) : Prop :=
  (path.isRoot = true ∧ rest = uri) ∨
    (path.isRoot = false ∧ uri = path.text ++ rest ∧
      ContextPath.startsSegment rest.toList = true)

theorem splits_innerPath {c : Context} {uri : String} (h : c.path.owns uri = true) :
    Splits c.path uri (innerPath c uri) := by
  unfold Splits innerPath
  cases hroot : c.path.isRoot with
  | true => exact .inl ⟨rfl, rfl⟩
  | false =>
    rcases ContextPath.owns_iff.1 h with habs | ⟨rest, huri, hseg⟩
    · rw [hroot] at habs
      simp at habs
    · have hrem := ContextPath.remainder?_eq_some_iff.2 huri
      simp only [Bool.false_eq_true, if_false, hrem, Option.getD_some]
      refine .inr ⟨trivial, ?_, by simpa using hseg⟩
      rw [← String.toList_inj]
      simpa using huri

theorem serve_below_contentRoot {h : Host} {m : Machine} {uri : String} {r : Resource}
    (hr : h.serve m uri = some r) :
    ∃ c rest normal route, h.findContext uri = some c ∧ c.state = .started ∧
      Splits c.path uri rest ∧ normalize rest = some normal ∧
      (route = normal ∨
        (Namespace.aliasFor c.resources.aliases normal).bind normalize = some route) ∧
      normalize route = some route ∧
      c.resources.isProtected normal = false ∧ c.resources.isProtected route = false ∧
      ∃ base plain trailing, c.resources.base = some base ∧
        route.toList = spell plain trailing ∧ (∀ s ∈ plain, IsPlain s) ∧
        r.path.components = base.contentRoot.components ++ plain.map .named := by
  unfold serve at hr
  split at hr
  · simp at hr
  · next c hc =>
    obtain ⟨-, hstate, howns, -⟩ := findContext_spec hc
    obtain ⟨normal, route, hnormal, hroute, hn, hq, hloc⟩ := Namespace.resolve_outside_spec hr
    obtain ⟨base, hbase, -, hpath, -⟩ := Namespace.locate_eq_some_iff.1 hloc
    -- the route is a result of `normalize` either way, of the path or of its hop
    have hnormalRoute : IsNormal route := by
      rcases hroute with rfl | hhop
      · exact isNormal_of_normalize hnormal
      · obtain ⟨hop, -, hhop⟩ := Option.bind_eq_some_iff.1 hhop
        exact isNormal_of_normalize hhop
    have hfix := normalize_of_isNormal hnormalRoute
    obtain ⟨plain, trailing, hplain, hspell⟩ := hnormalRoute
    refine ⟨c, innerPath c uri, normal, route, hc, hstate, splits_innerPath howns, hnormal,
      hroute, hfix, hn, hq, base, plain, trailing, hbase, hspell, hplain, ?_⟩
    rw [hpath]
    exact Namespace.components_placeBelow hplain hspell base.contentRoot

/-- An application whose aliases are chained: one onto the root and one onto the other. -/
def chained : Host :=
  let d := (Descriptor.ofBase "/A" "a").withAlias "/static/" "/"
  (((Sample.host.deploy (d.withAlias "/x/" "/static/")).1).prepare Sample.machine Sample.pathA).1

/-- The request path below is not normal, nothing is there directly, and one hop leads to a
    file. -/
theorem serve_chained :
    chained.serve Sample.machine "/A/y/../x//a.txt" =
        some ⟨"/x/a.txt", ⟨"/srv/a/static/a.txt"⟩, .file⟩ ∧
      ∃ c rest normal route, chained.findContext "/A/y/../x//a.txt" = some c ∧
        c.state = .started ∧ Splits c.path "/A/y/../x//a.txt" rest ∧
        normalize rest = some normal ∧
        (route = normal ∨
          (Namespace.aliasFor c.resources.aliases normal).bind normalize = some route) ∧
        normalize route = some route ∧
        c.resources.isProtected normal = false ∧ c.resources.isProtected route = false ∧
        ∃ base plain trailing, c.resources.base = some base ∧
          route.toList = spell plain trailing ∧ (∀ s ∈ plain, IsPlain s) ∧
          (FilePath.mk "/srv/a/static/a.txt").components =
            base.contentRoot.components ++ plain.map .named := by
  have hserve : chained.serve Sample.machine "/A/y/../x//a.txt" =
      some ⟨"/x/a.txt", ⟨"/srv/a/static/a.txt"⟩, .file⟩ := by
    decide +kernel
  exact ⟨hserve, serve_below_contentRoot hserve⟩

end Host

end Hosting
