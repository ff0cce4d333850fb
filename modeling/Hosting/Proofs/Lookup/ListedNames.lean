import Hosting.Proofs.Lookup.AliasRoutes
import Hosting.Proofs.Lookup.Callers
import Hosting.Proofs.Lookup.Spellings
import Hosting.Proofs.Path.Canonical
import Hosting.Proofs.Path.LeadingSegments

/-! # What listings give away

    A listing is refused to a caller outside where the directory itself is concealed. The
    names in it are not looked at one by one, so a listing shows names that the caller cannot
    look up: the reserved directories in a listing of the root, and what an alias leads to
    elsewhere.

    - `IsNamed`: file trees with the names that files can have.
    - `normalize_entry`: the normal path of a listed name.
    - `HasOpenAliases`: namespaces whose aliases lead away from all that is protected.
    - `list_names_shown_iff`: when all listed names can be looked up.
    - `list_not_shown`: a listing of the root that names a reserved directory.
-/

namespace Hosting

open Text VirtualPath

/-! ### Names in a directory -/

namespace FileTree

variable {t : FileTree} {dir : Location} {name : String}

/-- Every name in the tree is one that a file can have. -/
def IsNamed (t : FileTree) : Prop :=
  ∀ place ∈ t.places, ∀ name ∈ place, IsPlain name.toList

instance (t : FileTree) : Decidable t.IsNamed :=
  inferInstanceAs (Decidable (∀ place ∈ t.places, ∀ name ∈ place, IsPlain name.toList))

theorem subtree?_concat (t : FileTree) (dir : Location) (name : String) :
    t.subtree? (dir ++ [name]) = (t.subtree? dir).bind (·.child? name) := by
  induction dir generalizing t with
  | nil =>
    rw [List.nil_append, subtree?, subtree?, Option.bind_some]
    cases t.child? name <;> rfl
  | cons head rest ih =>
    rw [List.cons_append, subtree?, subtree?]
    cases t.child? head with
    | none => rfl
    | some child => exact ih child

theorem entryAt_of_mem_childNames (h : name ∈ t.childNames dir) :
    (t.entryAt (dir ++ [name])).isSome = true := by
  unfold childNames at h
  split at h
  · cases h
  · next here hhere =>
    rw [List.mem_eraseDups] at h
    obtain ⟨entry, hentry, rfl⟩ := List.mem_map.1 h
    have hchild : (here.children.lookup entry.1).isSome = true :=
      List.lookup_isSome_iff.2 ⟨entry, hentry, beq_self_eq_true _⟩
    rw [entryAt, subtree?_concat, hhere, Option.isSome_map, Option.bind_some]
    exact hchild

theorem IsNamed.isPlain (ht : t.IsNamed) (h : name ∈ t.childNames dir) :
    IsPlain name.toList := by
  rcases mem_places_of_entryAt (entryAt_of_mem_childNames h) with hnil | hplace
  · simp at hnil
  · exact ht _ hplace name (by simp)

end FileTree

theorem Machine.isPlain_of_names? {m : Machine} (hnamed : m.files.IsNamed) {dir : FilePath}
    {names : List String} (h : m.names? dir = some names) : ∀ name ∈ names, IsPlain name.toList := by
  intro name hmem
  unfold names? at h
  split at h
  · cases h
  · split at h
    · obtain rfl := Option.some.inj h
      exact hnamed.isPlain hmem
    · cases h

namespace Namespace

variable {m : Machine} {ns : Namespace} {path normal name : String} {names : List String}
  {caller : Caller}

/-! ### Listed names -/

/-- The text is a name, or the name of a directory with the slash that marks it. -/
def IsEntry (listed : String) : Prop :=
  ∃ entry, IsPlain entry ∧ (listed.toList = entry ∨ listed.toList = entry ++ ['/'])

theorem names_of_list (hnamed : m.files.IsNamed) (h : ns.list m path caller = some names) :
    ∀ name ∈ names, IsEntry name := by
  unfold list at h
  split at h
  · cases h
  · next found _ =>
    split at h
    · obtain ⟨all, hall, rfl⟩ := Option.map_eq_some_iff.1 h
      intro name hmem
      rw [List.mem_mergeSort] at hmem
      obtain ⟨entry, hentry, rfl⟩ := List.mem_map.1 hmem
      refine ⟨entry.toList, Machine.isPlain_of_names? hnamed hall entry hentry, ?_⟩
      split
      · exact .inr (by simp [show "/".toList = ['/'] from rfl])
      · exact .inl rfl
    · cases h

theorem plainSegments_entry {listed entry : List Char} (hentry : IsPlain entry)
    (hlisted : listed = entry ∨ listed = entry ++ ['/']) :
    plainSegments listed = some [entry] := by
  have hsegments : segments listed = [entry] ∨ segments listed = [entry, []] := by
    rcases hlisted with rfl | rfl
    · exact .inl hentry.segments_eq
    · rw [segments_append_slash, hentry.segments_eq]
      exact .inr rfl
  unfold plainSegments
  rcases hsegments with h | h <;> rw [h, plainFrom_cons_of_isName hentry.isName] <;> simp [plainFrom]

theorem normalize_entry (hn : normalize path = some normal) (hname : IsEntry name) :
    normalize (path ++ "/" ++ name) = some (routed normal name.toList) := by
  obtain ⟨entry, hentry, hlisted⟩ := hname
  obtain ⟨cs, hcs, hnormal⟩ := Option.map_eq_some_iff.1 hn
  obtain ⟨plain, hread, hspell⟩ := Option.map_eq_some_iff.1 hcs
  have hends : (path.toList ++ '/' :: name.toList).getLast? = name.toList.getLast? := by
    have hne : name.toList ≠ [] := by
      rcases hlisted with h | h <;> simp [h, hentry.ne_nil]
    rw [List.getLast?_append, List.getLast?_cons_of_ne_nil hne,
      List.getLast?_eq_some_getLast hne, Option.some_or]
  -- the slash at the end is the one that marks a directory
  have hmark : entry ++ (if name.toList.getLast? == some '/' then ['/'] else []) =
      name.toList := by
    rcases hlisted with h | h
    · have hlast : entry.getLast? ≠ some '/' := fun e =>
        hentry.no_slash (List.mem_of_getLast? e)
      simp [h, hlast]
    · simp [h]
  have htext : normal.toList = spell plain (path.toList.getLast? == some '/') := by
    rw [← hnormal, ← hspell, String.toList_ofList]
  have hfull : spell (plain ++ [entry]) (name.toList.getLast? == some '/') =
      (routed normal name.toList).toList := by
    rw [spell_of_ne_nil (by simp), toList_routed (isPlain_of_plainSegments hread) htext,
      List.flatMap_append, List.flatMap_singleton, List.append_assoc, List.cons_append, hmark]
  unfold VirtualPath.normalize normalizeChars
  simp only [String.toList_append, List.append_assoc, show "/".toList = ['/'] from rfl,
    List.singleton_append, plainSegments_append_slash hread (plainSegments_entry hentry hlisted),
    hends, hfull, Option.map_some, String.ofList_toList]

theorem routed_root (name : String) : routed "/" name.toList = "/" ++ name := by
  simp [routed]

/-- Away from the root, the path of a name is protected exactly if that of its directory is. -/
theorem isProtected_routed (hreserved : ns.reserved.AreSegments)
    (hn : normalize path = some normal) (hbelow : normal ≠ "/") (hname : IsEntry name) :
    ns.isProtected (routed normal name.toList) = ns.isProtected normal := by
  have hn' := normalize_entry hn hname
  obtain ⟨entry, hentry, hlisted⟩ := hname
  obtain ⟨cs, hcs, -⟩ := Option.map_eq_some_iff.1 hn
  obtain ⟨plain, hread, -⟩ := Option.map_eq_some_iff.1 hcs
  have happend : plainSegments (path ++ "/" ++ name).toList = some (plain ++ [entry]) := by
    simpa [show "/".toList = ['/'] from rfl] using
      plainSegments_append_slash hread (plainSegments_entry hentry hlisted)
  exact ProtectedTargets.isProtected_below hreserved hread happend hn hn' hbelow

/-! ### Where aliases lead -/

/-- A side of an alias that lies below the root and is not protected. -/
def IsOpen (ns : Namespace) (side : String) : Prop :=
  ∃ normal, normalize side = some normal ∧ normal ≠ "/" ∧ ns.isProtected normal = false

/-- No side of an alias is the root or protected. -/
def HasOpenAliases (ns : Namespace) : Prop :=
  ∀ pair ∈ ns.aliases, ns.IsOpen pair.1 ∧ ns.IsOpen pair.2

theorem HasOpenAliases.isOpen {key side : String} (hopen : ns.HasOpenAliases)
    (h : counterpart ns.aliases key = some side) : ns.IsOpen side := by
  obtain ⟨pair, hpair, rfl | rfl⟩ := registered_counterpart h
  · exact (hopen pair hpair).1
  · exact (hopen pair hpair).2

theorem plainSegments_routed {side : String} {rest : List Char} {plain inner : List (List Char)}
    (hside : plainSegments side.toList = some plain) (hrest : plainSegments rest = some inner) :
    plainSegments (routed side rest).toList = some (plain ++ inner) := by
  unfold routed
  split
  · next hlast =>
    -- the slash is the one at the end of the side
    obtain ⟨front, hfront⟩ := List.getLast?_eq_some_iff.1 hlast
    have hread : plainSegments front = some plain := by
      rw [hfront, plainSegments, segments_append_slash, plainFrom_append] at hside
      simpa [plainSegments, segments, pieces, plainFrom] using hside
    simpa [hfront] using plainSegments_append_slash hread hrest
  · simpa [show "/".toList = ['/'] from rfl] using plainSegments_append_slash hside hrest

/-- With open aliases, no route is protected. -/
theorem HasOpenAliases.not_protected {route : String} (hopen : ns.HasOpenAliases)
    (hreserved : ns.reserved.AreSegments) (hnormal : IsNormal normal)
    (h : ns.aliasRoute normal = some route) : ns.isProtected route = false := by
  obtain ⟨target, htarget, hroute⟩ := Option.bind_eq_some_iff.1 h
  unfold aliasFor at htarget
  split at htarget
  · next side hside =>
    obtain rfl := Option.some.inj htarget
    obtain ⟨n, hn, -, hshown⟩ := hopen.isOpen hside
    rwa [← Option.some.inj (hn.symm.trans hroute)]
  · have hyields := yields_prefixRoute ns.aliases [] normal.toList
    rw [htarget] at hyields
    cases hyields with
    | longest front rest side hsplit hside =>
      rw [List.append_nil] at hroute
      obtain ⟨n, hn, hbelow, hshown⟩ := hopen.isOpen hside
      obtain ⟨cs, hcs, -⟩ := Option.map_eq_some_iff.1 hn
      obtain ⟨plain, hread, -⟩ := Option.map_eq_some_iff.1 hcs
      -- the rest is the end of a normal path, so it does not climb out of the side
      obtain ⟨all, trailing, hall, hspell⟩ := hnormal
      have hnamed : named (front ++ '/' :: rest) = all := by
        rw [← hsplit, hspell, named_spell hall]
      obtain ⟨-, inner, hinner, -⟩ := plainSegments_of_append rfl hall hnamed
      rw [plainSegments_cons_slash] at hinner
      unfold isProtected at hshown ⊢
      rw [ProtectedTargets.isProtected_below hreserved hread (plainSegments_routed hread hinner) hn
        hroute hbelow, hshown]

/-! ### Names that cannot be looked up -/

theorem list_inside_of_outside (h : ns.list m path .outside = some names) :
    ns.list m path .inside = some names := by
  unfold list at h ⊢
  cases hfound : ns.resolve m path .outside with
  | none =>
    rw [hfound] at h
    cases h
  | some found =>
    rw [hfound] at h
    rw [resolve_inside_of_outside hfound]
    exact h

theorem not_protected_of_list (hn : normalize path = some normal)
    (h : ns.list m path .outside = some names) : ns.isProtected normal = false := by
  rw [Bool.eq_false_iff]
  intro hprotected
  unfold list at h
  rw [resolve_of_conceals hn (.inl hprotected)] at h
  cases h

/-- What a caller outside is shown of a directory is what the application itself is shown. All the
    names can be looked up exactly if none of them is concealed. With single segments reserved
    and aliases that lead away from what is protected, this holds of every directory but the
    root, and of the root if it holds no reserved directory. -/
theorem list_names_shown_iff (hnamed : m.files.IsNamed) (hn : normalize path = some normal)
    (hlist : ns.list m path .outside = some names) :
    ns.list m path .inside = some names ∧
      ((∀ name ∈ names, ns.reaches m (path ++ "/" ++ name) .inside = true →
          ns.reaches m (path ++ "/" ++ name) .outside = true) ↔
        ∀ name ∈ names, ns.reaches m (path ++ "/" ++ name) .inside = true →
          ¬ ns.Conceals m (routed normal name.toList)) ∧
      (ns.reserved.AreSegments → ns.HasOpenAliases →
        (normal = "/" → ∀ name ∈ names, ns.isProtected ("/" ++ name) = false) →
        ∀ name ∈ names, ns.reaches m (path ++ "/" ++ name) .inside = true →
          ns.reaches m (path ++ "/" ++ name) .outside = true) := by
  have hentry {name : String} (hmem : name ∈ names) : IsEntry name :=
    names_of_list hnamed hlist name hmem
  have hnormal {name : String} (hmem : name ∈ names) :
      normalize (path ++ "/" ++ name) = some (routed normal name.toList) :=
    normalize_entry hn (hentry hmem)
  have hshown_of {name : String} (hmem : name ∈ names)
      (hin : ns.reaches m (path ++ "/" ++ name) .inside = true)
      (hc : ¬ ns.Conceals m (routed normal name.toList)) :
      ns.reaches m (path ++ "/" ++ name) .outside = true := by
    rw [reaches, resolve_of_not_conceals (hnormal hmem) hc]
    exact hin
  refine ⟨list_inside_of_outside hlist, ⟨fun hshown name hmem hin hc => ?_,
    fun hnone name hmem hin => hshown_of hmem hin (hnone name hmem hin)⟩,
    fun hreserved hopen hroot name hmem hin => hshown_of hmem hin ?_⟩
  · have hout := hshown name hmem hin
    rw [reaches, resolve_of_conceals (hnormal hmem) hc] at hout
    cases hout
  · rintro (hprotected | ⟨-, route, hroute, hprotected⟩)
    · -- the name itself is protected, so it stands in the root
      by_cases heq : normal = "/"
      · rw [heq, routed_root, hroot heq name hmem] at hprotected
        cases hprotected
      · rw [isProtected_routed hreserved hn heq (hentry hmem),
          not_protected_of_list hn hlist] at hprotected
        cases hprotected
    · rw [hopen.not_protected hreserved (isNormal_of_normalize (hnormal hmem)) hroute] at hprotected
      cases hprotected

/-- The listing of a directory, put together from the lookup and the names. -/
theorem list_eq (place : FilePath)
    (hfound : (ns.resolve m path caller).map (fun r => (r.path, r.kind)) =
      some (place, .directory))
    (hnames : (m.names? place).map (fun all => all.map fun name =>
      if m.holdsDirectory place name then name ++ "/" else name) = some names)
    (hsorted : names.Pairwise fun a b => decide (a ≤ b) = true) :
    ns.list m path caller = some names := by
  obtain ⟨r, hr, hpair⟩ := Option.map_eq_some_iff.1 hfound
  obtain ⟨hplace, hkind⟩ := Prod.mk.inj hpair
  obtain ⟨all, hall, hmarked⟩ := Option.map_eq_some_iff.1 hnames
  unfold list
  simp only [hr, hplace, hkind, if_true, hall, Option.map_some, hmarked,
    List.mergeSort_of_pairwise hsorted]

/-- The small machine with a reserved directory in the application. -/
def reservedMachine : Machine :=
  Sample.machine.withFiles
    ((Sample.machine.files.put ["srv", "a", "WEB-INF"] .directory).put
      ["srv", "a", "WEB-INF", "web.xml"] (.file (.text "x")))

theorem isNamed_reservedMachine : reservedMachine.files.IsNamed := by
  decide +kernel

/-- The application, with an alias onto the directory beside the reserved one. -/
def published : Namespace :=
  ⟨some (.directory ⟨"/srv/a"⟩), [("/pub/", "/static/")], .default⟩

/-- The alias leads to a directory that is open, so the file in it can be looked up. -/
theorem list_names_shown_iff_published :
    reservedMachine.files.IsNamed ∧ normalize "/pub/" = some "/pub/" ∧
      published.list reservedMachine "/pub/" .outside = some ["a.txt"] ∧
      published.list reservedMachine "/pub/" .inside = some ["a.txt"] ∧
      published.reaches reservedMachine ("/pub/" ++ "/" ++ "a.txt") .outside = true := by
  have hn : normalize "/pub/" = some "/pub/" := by
    decide +kernel
  have hlist : published.list reservedMachine "/pub/" .outside =
      some ["a.txt"] :=
    list_eq ⟨"/srv/a/static"⟩ (by decide +kernel) (by decide +kernel) (by decide)
  have hopen : published.HasOpenAliases := by
    intro pair hpair
    obtain rfl := List.mem_singleton.1 hpair
    exact ⟨⟨"/pub/", by decide +kernel, by decide, by decide +kernel⟩,
      "/static/", by decide +kernel, by decide, by decide +kernel⟩
  have hinside : published.reaches reservedMachine ("/pub/" ++ "/" ++ "a.txt") .inside = true := by
    decide +kernel
  obtain ⟨hsame, -, hshown⟩ := list_names_shown_iff isNamed_reservedMachine hn hlist
  exact ⟨isNamed_reservedMachine, hn, hlist, hsame,
    hshown (by decide +kernel) hopen (by decide) "a.txt" (List.mem_singleton_self _) hinside⟩

/-- A caller outside is shown the reserved directory in a listing of the root, and cannot look it
    up. -/
theorem list_not_shown :
    ¬ ∀ (m : Machine) (ns : Namespace) (path : String) (names : List String),
      m.files.IsNamed → ns.list m path .outside = some names → ∀ name ∈ names,
        ns.reaches m (path ++ "/" ++ name) .inside = true →
          ns.reaches m (path ++ "/" ++ name) .outside = true := by
  intro hall
  have hinside : published.reaches reservedMachine ("/" ++ "/" ++ "WEB-INF/") .inside = true := by
    decide +kernel
  have hhidden : published.reaches reservedMachine ("/" ++ "/" ++ "WEB-INF/") .outside = false := by
    decide +kernel
  have hlist : published.list reservedMachine "/" .outside = some ["WEB-INF/", "static/"] :=
    list_eq ⟨"/srv/a"⟩ (by decide +kernel) (by decide +kernel) (by decide)
  have hshown := hall reservedMachine published "/" _ isNamed_reservedMachine hlist "WEB-INF/"
    List.mem_cons_self hinside
  rw [hhidden] at hshown
  cases hshown

end Namespace

end Hosting
