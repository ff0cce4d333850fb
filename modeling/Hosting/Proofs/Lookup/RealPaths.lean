import Hosting.Proofs.Host.Runs
import Hosting.Proofs.Lookup.Callers
import Hosting.Proofs.Path.Components
import Hosting.Proofs.Path.Reading

/-! # Real paths

    The real path of a virtual path is told without a look at the files and without the aliases.
    A lookup from inside goes to the same place first, and goes on to the real path of the alias
    route where nothing stands there.

    - `realPath_eq_some_iff`: the place below the base that is told.
    - `Projects`: a place below the content root by the segments of a virtual path.
    - `realPath_agrees`: what is told of every path, and what a lookup makes of it.
-/

namespace Hosting.Namespace

open VirtualPath

variable {m : Machine} {ns : Namespace} {path : String} {p : FilePath}

/-! ### What is told -/

theorem realPath_eq_some_iff :
    ns.realPath path = some p ↔ ∃ base normal, ns.base = some base ∧
      normalize path = some normal ∧ p = placeBelow base.contentRoot normal := by
  unfold realPath
  cases ns.base with
  | none => simp
  | some base => cases normalize path <;> simp [eq_comm]

theorem realPath_eq_none_iff :
    ns.realPath path = none ↔ ns.base = none ∨ normalize path = none := by
  unfold realPath
  cases ns.base with
  | none => simp
  | some base => cases normalize path <;> simp

/-- The place lies below the content root by the segments that the virtual path comes to, and all of
    them lead down. -/
structure Projects (root : FilePath) (path : String) (plain : List (List Char)) (p : FilePath) :
    Prop where
  read : plainSegments path.toList = some plain
  isPlain : ∀ s ∈ plain, IsPlain s
  components : p.components = root.components ++ plain.map .named

theorem projects_of_realPath (h : ns.realPath path = some p) :
    ∃ base plain, ns.base = some base ∧ Projects base.contentRoot path plain p := by
  obtain ⟨base, normal, hbase, hn, rfl⟩ := realPath_eq_some_iff.1 h
  obtain ⟨plain, hread, hspell⟩ := exists_plain_of_normalize hn
  have hplain := isPlain_of_plainSegments hread
  exact ⟨base, plain, hbase, hread, hplain, components_placeBelow hplain hspell base.contentRoot⟩

/-! ### What a lookup makes of it -/

/-- What stands at the real path is found. -/
theorem resolve_of_realPath {kind : Kind} (h : ns.realPath path = some p)
    (hkind : m.kindOf p = .ok kind) :
    ∃ r, ns.resolve m path .inside = some r ∧ r.path = p ∧ r.kind = kind := by
  obtain ⟨base, normal, hbase, hn, rfl⟩ := realPath_eq_some_iff.1 h
  have hfound : ns.locate m normal normal =
      some ⟨normal, placeBelow base.contentRoot normal, kind⟩ :=
    locate_eq_some_iff.2 ⟨base, hbase, rfl, rfl, hkind⟩
  refine ⟨⟨normal, placeBelow base.contentRoot normal, kind⟩, ?_, rfl, rfl⟩
  rw [resolve_inside hn, hfound, Option.some_or]

/-- What is found stands at the real path, or nothing stands there and it stands at the real path
    of the alias route. -/
theorem realPath_of_resolve {r : Resource} (h : ns.resolve m path .inside = some r) :
    ∃ p, ns.realPath path = some p ∧
      (r.path = p ∨ (∃ e, m.kindOf p = .error e) ∧
        ∃ normal route, normalize path = some normal ∧
          aliasFor ns.aliases normal = some route ∧ ns.realPath route = some r.path) := by
  obtain ⟨normal, hn⟩ := exists_normal_of_resolve (Option.isSome_of_mem h)
  rw [resolve_inside hn] at h
  rcases Option.or_eq_some_iff.1 h with hdirect | ⟨hnothing, hhop⟩
  · obtain ⟨base, hbase, -, hpath, -⟩ := locate_eq_some_iff.1 hdirect
    exact ⟨r.path, realPath_eq_some_iff.2 ⟨base, normal, hbase, hn, hpath⟩, .inl rfl⟩
  · obtain ⟨routed, hrouted, hfound⟩ := Option.bind_eq_some_iff.1 hhop
    obtain ⟨route, hroute, hnormal⟩ := Option.bind_eq_some_iff.1 hrouted
    obtain ⟨base, hbase, -, hpath, -⟩ := locate_eq_some_iff.1 hfound
    refine ⟨_, realPath_eq_some_iff.2 ⟨base, normal, hbase, hn, rfl⟩, .inr ⟨?_, normal, route, hn,
      hroute, realPath_eq_some_iff.2 ⟨base, routed, hbase, hnormal, hpath⟩⟩⟩
    cases hkind : m.kindOf (placeBelow base.contentRoot normal) with
    | error e => exact ⟨e, rfl⟩
    | ok kind => exact absurd ⟨base, kind, hbase, hkind⟩ (locate_eq_none_iff.1 hnothing)

/-- A real path is told of every path that does not climb, once there is a base, and lies below the
    content root by plain segments, whatever the files are. What stands there is what a lookup
    from inside finds. If the lookup finds another place, then nothing stands at the real path,
    and that place is the real path of the alias route. -/
theorem realPath_agrees (ns : Namespace) (path : String) :
    (ns.realPath path = none ↔ ns.base = none ∨ normalize path = none) ∧
      (∀ p, ns.realPath path = some p →
        ∃ base plain, ns.base = some base ∧ Projects base.contentRoot path plain p) ∧
      ∀ m : Machine,
        (∀ p kind, ns.realPath path = some p → m.kindOf p = .ok kind →
          ∃ r, ns.resolve m path .inside = some r ∧ r.path = p ∧ r.kind = kind) ∧
        ∀ r, ns.resolve m path .inside = some r →
          ∃ p, ns.realPath path = some p ∧
            (r.path = p ∨ (∃ e, m.kindOf p = .error e) ∧
              ∃ normal route, normalize path = some normal ∧
                aliasFor ns.aliases normal = some route ∧ ns.realPath route = some r.path) :=
  ⟨realPath_eq_none_iff, fun _ h => projects_of_realPath h, fun _ =>
    ⟨fun _ _ h hkind => resolve_of_realPath h hkind, fun _ h => realPath_of_resolve h⟩⟩

/-- The files of an archive, with an alias onto one of its directories. -/
def extracted : Namespace :=
  ⟨some (.archive ⟨"/srv/a.war"⟩ ⟨"/srv/a"⟩), [("/pub/", "/static/")], .default⟩

/-- Nothing stands at the real path, and the lookup goes on to that of the route. -/
theorem realPath_agrees_extracted :
    extracted.realPath "pub/x/..//a.txt" = some ⟨"/srv/a/pub/a.txt"⟩ ∧
      ∃ r, extracted.resolve Sample.machine "pub/x/..//a.txt" .inside = some r ∧
        (∃ e, Sample.machine.kindOf ⟨"/srv/a/pub/a.txt"⟩ = .error e) ∧
        ∃ normal route, normalize "pub/x/..//a.txt" = some normal ∧
          aliasFor extracted.aliases normal = some route ∧
          extracted.realPath route = some r.path := by
  have hreal : extracted.realPath "pub/x/..//a.txt" = some ⟨"/srv/a/pub/a.txt"⟩ := by
    decide +kernel
  have hfound : extracted.resolve Sample.machine "pub/x/..//a.txt" .inside =
      some ⟨"/pub/a.txt", ⟨"/srv/a/static/a.txt"⟩, .file⟩ := by
    decide +kernel
  obtain ⟨-, -, hlookup⟩ := realPath_agrees extracted "pub/x/..//a.txt"
  obtain ⟨p, hp, hpath | ⟨hnothing, hroute⟩⟩ := (hlookup Sample.machine).2 _ hfound
  · rw [hreal, ← hpath] at hp
    exact absurd (Option.some.inj hp) (by decide)
  · rw [hreal] at hp
    obtain rfl := Option.some.inj hp
    exact ⟨hreal, _, hfound, hnothing, hroute⟩

end Hosting.Namespace
