import Hosting.Proofs.Context.Pipeline
import Hosting.Proofs.Context.Quiet
import Hosting.Proofs.Lookup.AliasTables
import Hosting.Proofs.Lookup.Callers
import Hosting.Proofs.Path.Canonical

/-! # The search path of a default application

    Unless it is told otherwise, an application is prepared by two processors. The first one
    adds its classes and the archives of its library directory to the search path, behind
    the libraries of the extra classpath. The second one records where its deployment
    descriptor is, and refuses a directory in its place.

    - `IsClasses`, `IsArchives`: what an application brings along; the files determine it.
    - `webInf_cases`, `webXml_cases`: what the two do.
    - `prepare_default_cases`: the ways in which they prepare a context.
    - `default_search_path`: the search path that comes of it, and when there is none.
    - `archives_not_listed`: a library directory without a canonical path counts as empty.
-/

namespace Hosting

/-! ### The namespace of a descriptor -/

namespace Namespace

/-- What a namespace is told about routes does not depend on its base and its reserved names. -/
theorem registerAliases_eq {ns ns' : Namespace} (h : ns.aliases = ns'.aliases)
    (pairs : List (String × String)) :
    ns.registerAliases pairs = { ns with aliases := (ns'.registerAliases pairs).aliases } := by
  unfold registerAliases
  induction pairs generalizing ns ns' with
  | nil => rw [List.foldl_nil, List.foldl_nil, ← h]
  | cons pair rest ih =>
    have hone : (ns.registerAlias pair.1 pair.2).aliases =
          (ns'.registerAlias pair.1 pair.2).aliases ∧
        (ns.registerAlias pair.1 pair.2).base = ns.base ∧
        (ns.registerAlias pair.1 pair.2).reserved = ns.reserved := by
      unfold registerAlias
      split
      · rw [h]
        exact ⟨rfl, rfl, rfl⟩
      · exact ⟨h, rfl, rfl⟩
    obtain ⟨hroutes, hbase, hreserved⟩ := hone
    rw [List.foldl_cons, List.foldl_cons, ih hroutes, hbase, hreserved]

/-- A resource that is found is there, and is what it is said to be. -/
theorem kindOf_of_resolve {m : Machine} {ns : Namespace} {path : String} {caller : Caller}
    {r : Resource} (h : ns.resolve m path caller = some r) : m.kindOf r.path = .ok r.kind := by
  unfold resolve at h
  split at h
  · cases h
  · split at h
    · cases h
    · split at h
      · next found hfound =>
        obtain rfl := Option.some.inj h
        obtain ⟨-, -, -, -, hkind⟩ := locate_eq_some_iff.1 hfound
        exact hkind
      · split at h
        · cases h
        · split at h
          · cases h
          · obtain ⟨-, -, -, -, hkind⟩ := locate_eq_some_iff.1 h
            exact hkind

/-- The virtual path leads the application itself to a directory, directly or by a route. -/
def LeadsToDirectory (m : Machine) (ns : Namespace) (path : String) (dir : FilePath) : Prop :=
  ∃ r, ns.resolve m path .inside = some r ∧ r.kind = .directory ∧ r.path = dir

theorem LeadsToDirectory.eq {m : Machine} {ns : Namespace} {path : String} {dir other : FilePath}
    (h : ns.LeadsToDirectory m path dir) (hother : ns.LeadsToDirectory m path other) :
    dir = other := by
  obtain ⟨r, hr, -, rfl⟩ := h
  obtain ⟨s, hs, -, rfl⟩ := hother
  rw [hr] at hs
  rw [Option.some.inj hs]

theorem LeadsToDirectory.kindOf {m : Machine} {ns : Namespace} {path : String} {dir : FilePath}
    (h : ns.LeadsToDirectory m path dir) : m.kindOf dir = .ok .directory := by
  obtain ⟨r, hr, hkind, rfl⟩ := h
  rw [kindOf_of_resolve hr, hkind]

end Namespace

/-- The namespace of an application with this base, with the routes that its descriptor asks for. -/
def Descriptor.namespaceAt (d : Descriptor) (settings : Settings) (base : BaseResource) :
    Namespace :=
  (⟨some base, [], .ofNames settings.protectedTargets⟩ : Namespace).registerAliases d.aliases

namespace Context

open Namespace

/-- What a new context carries into its preparation. -/
theorem ofDescriptor_carries {id : DeploymentId} {made : Instant} {d : Descriptor} {c : Context}
    (h : ofDescriptor id made d = .ok c) :
    c.resources = (Namespace.ofTargets .default).registerAliases d.aliases ∧
      c.extraClasspath = d.extraClasspath ∧ c.attributes = .empty := by
  unfold ofDescriptor at h
  split at h
  · cases h
  · obtain rfl := Except.ok.inj h
    exact ⟨rfl, rfl, rfl⟩

/-- The routes go through the context, which keeps them in normal spelling, and come to the same
    namespace as if they were registered on it. -/
theorem freshResources_ofDescriptor {id : DeploymentId} {made : Instant} {d : Descriptor}
    {c : Context} (h : ofDescriptor id made d = .ok c) (settings : Settings)
    (base : BaseResource) : c.freshResources settings base = d.namespaceAt settings base := by
  obtain ⟨hresources, -, -⟩ := ofDescriptor_carries h
  let bare : Namespace := ⟨some base, [], .ofNames settings.protectedTargets⟩
  have hkept : AreKept c.resources.aliases := by
    rw [hresources]
    exact areKept_nil.registerAliases d.aliases
  have hbare : bare.aliases = (Namespace.ofTargets .default).aliases := rfl
  show bare.registerAliases c.resources.aliases = bare.registerAliases d.aliases
  calc bare.registerAliases c.resources.aliases
      = { bare with aliases := (bare.registerAliases c.resources.aliases).aliases } :=
        registerAliases_eq rfl _
    _ = { bare with aliases := c.resources.aliases } := by rw [aliases_replayed rfl hkept]
    _ = bare.registerAliases d.aliases := by rw [registerAliases_eq hbare d.aliases, hresources]

end Context

/-! ### What the built-in processors find -/

section Found

variable (c : Classpath) (m : Machine) (ns : Namespace)

/-- The libraries are the canonical directory of the application's classes, or none if there is
    no such directory. -/
inductive IsClasses : List Library → Prop where
  | found {dir place : FilePath} : ns.LeadsToDirectory m "/WEB-INF/classes/" dir →
      m.canonical dir = .ok place → IsClasses [⟨place, .directory⟩]
  | missing : (∀ dir, ¬ ns.LeadsToDirectory m "/WEB-INF/classes/" dir) → IsClasses []

/-- The libraries are the archives directly inside the application's library directory, by name.
    They are looked for below its canonical path. -/
inductive IsArchives : List Library → Prop where
  | found {dir place : FilePath} {names : List String} :
      ns.LeadsToDirectory m "/WEB-INF/lib/" dir → m.canonical dir = .ok place →
      c.ListsArchives m place names →
      IsArchives (names.map fun name : String => ⟨place.join ⟨name⟩, .archive⟩)
  /-- The directory has no canonical path. -/
  | unnamed {dir : FilePath} {e : OsError} : ns.LeadsToDirectory m "/WEB-INF/lib/" dir →
      m.canonical dir = .error e → IsArchives []
  | missing : (∀ dir, ¬ ns.LeadsToDirectory m "/WEB-INF/lib/" dir) → IsArchives []

variable {c m ns} {libraries libraries' : List Library}

/-- The namespace and the files leave no choice of the classes. -/
theorem IsClasses.unique (h : IsClasses m ns libraries) (h' : IsClasses m ns libraries') :
    libraries = libraries' := by
  cases h with
  | found hleads hplace =>
    cases h' with
    | found hleads' hplace' =>
      rw [← hleads.eq hleads', hplace] at hplace'
      rw [Except.ok.inj hplace']
    | missing hnone => exact absurd hleads (hnone _)
  | missing hnone =>
    cases h' with
    | found hleads' _ => exact absurd hleads' (hnone _)
    | missing _ => rfl

/-- Nor do they leave a choice of the archives. -/
theorem IsArchives.unique (h : IsArchives c m ns libraries) (h' : IsArchives c m ns libraries') :
    libraries = libraries' := by
  cases h with
  | found hleads hplace hlists =>
    cases h' with
    | found hleads' hplace' hlists' =>
      rw [← hleads.eq hleads', hplace] at hplace'
      obtain rfl := Except.ok.inj hplace'
      rw [hlists.unique hlists']
    | unnamed hleads' hplace' =>
      rw [← hleads.eq hleads', hplace] at hplace'
      cases hplace'
    | missing hnone => exact absurd hleads (hnone _)
  | unnamed hleads hplace =>
    cases h' with
    | found hleads' hplace' _ =>
      rw [← hleads.eq hleads', hplace] at hplace'
      cases hplace'
    | unnamed _ _ => rfl
    | missing _ => rfl
  | missing hnone =>
    cases h' with
    | found hleads' _ _ => exact absurd hleads' (hnone _)
    | unnamed _ _ => rfl
    | missing _ => rfl

end Found

namespace Attributes

theorem get?_insert (a : Attributes) (key text : String) :
    (a.insert key text).get? key = some text := by
  unfold get? insert
  rw [List.lookup_cons_self]

end Attributes

namespace Processor

open Namespace

variable (view : SetupView) (setup : Setup)

variable {view setup} in
/-- A processor that succeeds hands its setup on. -/
theorem run_of_succeed {p : Processor} {rest : List Processor} {next : Setup}
    (h : p.configure view setup = succeed next) :
    run view (p :: rest) setup = run view rest next := by
  rw [run, h]
  rfl

variable {view setup} in
/-- A processor that fails has the last word. -/
theorem run_of_failure {p : Processor} {rest : List Processor} {next : Setup}
    {cause : ProcessorError} (h : p.configure view setup = ⟨next, [], some cause⟩) :
    run view (p :: rest) setup = ⟨next, [], some (p.name, cause)⟩ := by
  rw [run, h]

theorem addLib_eq : ∃ archives, IsArchives view.classpath view.machine setup.resources archives ∧
    addLib view setup = { setup with libraries := setup.libraries.pushAll archives } := by
  unfold addLib
  split
  · next text path hfound =>
    have hleads : setup.resources.LeadsToDirectory view.machine "/WEB-INF/lib/" path :=
      ⟨_, hfound, rfl, rfl⟩
    obtain ⟨hnone, hsome⟩ := Classpath.listsArchives_expand view.classpath view.machine path
    refine ⟨_, ?_, rfl⟩
    cases hplace : view.machine.canonical path with
    | error e =>
      rw [hnone e hplace]
      exact .unnamed hleads hplace
    | ok place =>
      obtain ⟨names, hlists, hexpand⟩ := hsome place hplace
      rw [hexpand]
      exact .found hleads hplace hlists
  · next hnot =>
    refine ⟨[], .missing ?_, rfl⟩
    rintro dir ⟨⟨text, path, kind⟩, hfound, rfl, rfl⟩
    exact hnot text path hfound

/-- Classes without a canonical path are refused. Otherwise the classes are added first and the
    archives behind them. -/
theorem webInf_cases :
    (∃ dir e, setup.resources.LeadsToDirectory view.machine "/WEB-INF/classes/" dir ∧
        view.machine.canonical dir = .error e ∧
        webInf.configure view setup = ⟨setup, [], some (.read dir e)⟩) ∨
      ∃ classes archives, IsClasses view.machine setup.resources classes ∧
        IsArchives view.classpath view.machine setup.resources archives ∧
        webInf.configure view setup =
          succeed { setup with libraries := setup.libraries.pushAll (classes ++ archives) } := by
  unfold webInf
  simp only
  split
  · next text path hfound =>
    have hleads : setup.resources.LeadsToDirectory view.machine "/WEB-INF/classes/" path :=
      ⟨_, hfound, rfl, rfl⟩
    cases hplace : view.machine.canonical path with
    | error e => exact .inl ⟨path, e, hleads, hplace, rfl⟩
    | ok place =>
      let grown : Setup :=
        { setup with libraries := setup.libraries.push ⟨place, .directory⟩ }
      obtain ⟨archives, harchives, hadd⟩ := addLib_eq view grown
      refine .inr ⟨[⟨place, .directory⟩], archives, .found hleads hplace, harchives, ?_⟩
      show succeed (addLib view grown) = _
      rw [hadd]
      rfl
  · next hnot =>
    obtain ⟨archives, harchives, hadd⟩ := addLib_eq view setup
    refine .inr ⟨[], archives, .missing ?_, harchives, ?_⟩
    · rintro dir ⟨⟨text, path, kind⟩, hfound, rfl, rfl⟩
      exact hnot text path hfound
    · rw [hadd]
      rfl

/-- A directory is refused. Otherwise what is found is recorded, if anything. -/
theorem webXml_cases :
    (∃ dir, setup.resources.LeadsToDirectory view.machine "/WEB-INF/web.xml" dir ∧
        webXml.configure view setup =
          ⟨setup, [], some (.invalid (dir.text ++ " is a directory"))⟩) ∨
      (∀ dir, ¬ setup.resources.LeadsToDirectory view.machine "/WEB-INF/web.xml" dir) ∧
        ∃ attributes, webXml.configure view setup = succeed { setup with attributes } ∧
          attributes.get? descriptorAttribute =
            ((setup.resources.resolve view.machine "/WEB-INF/web.xml" .inside).map
              (·.path.text)).or (setup.attributes.get? descriptorAttribute) := by
  unfold webXml
  simp only
  split
  · next hnone =>
    refine .inr ⟨?_, setup.attributes, rfl, by rw [hnone]; rfl⟩
    rintro dir ⟨r, hfound, -, -⟩
    rw [hnone] at hfound
    cases hfound
  · next text path hfound => exact .inl ⟨path, ⟨_, hfound, rfl, rfl⟩, rfl⟩
  · next text path hfound =>
    refine .inr ⟨?_, setup.attributes.insert descriptorAttribute path.text, rfl, ?_⟩
    · rintro dir ⟨r, hother, hkind, -⟩
      rw [hfound] at hother
      obtain rfl := Option.some.inj hother
      cases hkind
    · rw [Attributes.get?_insert, hfound]
      rfl

end Processor

namespace Context

open Processor Namespace

/-! ### Default preparations -/

/-- A context without processors of its own takes the built-in ones by their identifiers. -/
theorem processors_default {c : Context} {env : Environment} (hinstances : c.instances = [])
    (hregistry : env.registry = .default)
    (hlist : (c.chooseProcessors env).identifiers = ["webinf", "webxml"]) :
    (c.chooseProcessors env).processors = [webInf, webXml] := by
  have hmade : (c.chooseProcessors env).processors =
      (c.chooseProcessors env).identifiers.filterMap env.registry.create := by
    unfold chooseProcessors ProcessorList.choose
    rw [hinstances, if_neg (by simp)]
    split
    · rfl
    · split <;> rfl
  rw [hmade, hlist, hregistry]
  rfl

/-- The ways in which the two built-in processors prepare a context whose base is found. -/
theorem prepare_default_cases {c : Context} {env : Environment} {base : BaseResource}
    (hc : c.IsPending) (hbase : c.establish env = .ok base)
    (hlist : (c.chooseProcessors env).processors = [webInf, webXml]) (now : Instant) :
    let ns := c.freshResources env.settings base
    (∃ dir e, ns.LeadsToDirectory env.machine "/WEB-INF/classes/" dir ∧
        env.machine.canonical dir = .error e ∧
        (c.prepare env now).outcome =
          .error (.configuration c.path.text "webinf" (.read dir e))) ∨
      (∃ dir, ns.LeadsToDirectory env.machine "/WEB-INF/web.xml" dir ∧
        (c.prepare env now).outcome =
          .error (.configuration c.path.text "webxml" (.invalid (dir.text ++ " is a directory")))) ∨
      (∀ dir, ¬ ns.LeadsToDirectory env.machine "/WEB-INF/web.xml" dir) ∧
        ∃ classes archives, IsClasses env.machine ns classes ∧
          IsArchives env.settings.classpath env.machine ns archives ∧
          (c.prepare env now).outcome = .ok () ∧
          (c.prepare env now).context.libraries =
            (c.freshLibraries env).pushAll (classes ++ archives) ∧
          (c.prepare env now).context.attributes.get? descriptorAttribute =
            ((ns.resolve env.machine "/WEB-INF/web.xml" .inside).map (·.path.text)).or
              (c.attributes.get? descriptorAttribute) := by
  intro ns
  rw [hc.prepare_eq, hbase]
  show _ ∨ (∃ dir, _ ∧ (c.prepareAt env now base).outcome = _) ∨ _
  have hrun (first : Setup) : run (c.view env) (c.chooseProcessors env).processors first =
      run (c.view env) [webInf, webXml] first := by
    rw [hlist]
  unfold prepareAt
  simp only [hrun]
  let first := c.freshSetup env base
  rcases webInf_cases (c.view env) first with ⟨dir, e, hleads, hplace, hdone⟩ |
    ⟨classes, archives, hclasses, harchives, hdone⟩
  · refine .inl ⟨dir, e, hleads, hplace, ?_⟩
    have hfirst : run (c.view env) [webInf, webXml] (c.freshSetup env base) =
        ⟨first, [], some ("webinf", .read dir e)⟩ := run_of_failure hdone
    rw [hfirst]
  · -- the first processor leaves the namespace and the attributes as they were
    let grown : Setup :=
      { first with libraries := first.libraries.pushAll (classes ++ archives) }
    rcases webXml_cases (c.view env) grown with ⟨dir, hleads, hlast⟩ |
      ⟨hfree, attributes, hlast, hget⟩
    · refine .inr (.inl ⟨dir, hleads, ?_⟩)
      have hboth : run (c.view env) [webInf, webXml] (c.freshSetup env base) =
          ⟨grown, [], some ("webxml", .invalid (dir.text ++ " is a directory"))⟩ := by
        rw [run_of_succeed hdone]
        exact run_of_failure hlast
      rw [hboth]
    · refine .inr (.inr ⟨hfree, classes, archives, hclasses, harchives, ?_⟩)
      have hboth : run (c.view env) [webInf, webXml] (c.freshSetup env base) =
          ⟨{ grown with attributes }, [], none⟩ := by
        rw [run_of_succeed hdone, run_of_succeed hlast]
        rfl
      rw [hboth]
      exact ⟨rfl, rfl, hget⟩

/-- The libraries that the extra classpath of a descriptor names, each place once. -/
def extraLibraries (d : Descriptor) (env : Environment) : List Library :=
  match d.extraClasspath with
  | none => []
  | some raw =>
    env.settings.classpath.resolveText env.machine raw (env.settings.classpathPath env.machine)

theorem freshLibraries_ofDescriptor {id : DeploymentId} {made : Instant} {d : Descriptor}
    {c : Context} (h : ofDescriptor id made d = .ok c) (env : Environment) (ls : List Library) :
    ((c.freshLibraries env).pushAll ls).libraries =
      Library.eachPlaceOnce (extraLibraries d env ++ ls) := by
  obtain ⟨-, hextra, -⟩ := ofDescriptor_carries h
  have hdistinct : Library.AtDistinctPlaces (extraLibraries d env) := by
    unfold extraLibraries
    split
    · exact .nil
    · exact Classpath.atDistinctPlaces_resolveText ..
  have hfresh : (c.freshLibraries env).libraries = extraLibraries d env := by
    unfold extraLibraries
    rw [← hextra]
    exact (isFresh_freshSetup c env (.directory ⟨""⟩)).libraries
  rw [LibrarySet.pushAll_eq, hfresh, Classpath.eachPlaceOnce_eq_foldl, List.foldl_append,
    Classpath.foldl_addNew_nil hdistinct]

/-- A new application that the two built-in processors prepare has on its search path, each place
    once: the libraries of its extra classpath, the canonical directory of its classes, and the
    archives of its library directory as they are found below the canonical path of that. Where
    whatever exists has a canonical path, the preparation fails exactly if there is a directory
    in the place of the deployment descriptor. Otherwise it records where that is, if it is
    anywhere. -/
theorem default_search_path {id : DeploymentId} {made : Instant} {d : Descriptor} {c : Context}
    {env : Environment} (hc : ofDescriptor id made d = .ok c) (hregistry : env.registry = .default)
    (hlist : (c.chooseProcessors env).identifiers = ["webinf", "webxml"]) (now : Instant) :
    ((c.prepare env now).outcome = .ok () →
        ∃ base classes archives, c.establish env = .ok base ∧
          IsClasses env.machine (d.namespaceAt env.settings base) classes ∧
          IsArchives env.settings.classpath env.machine (d.namespaceAt env.settings base) archives ∧
          (c.prepare env now).context.libraries.libraries =
            Library.eachPlaceOnce (extraLibraries d env ++ (classes ++ archives))) ∧
      ∀ base, c.establish env = .ok base →
        (∀ p kind, env.machine.kindOf p = .ok kind → ∃ place, env.machine.canonical p = .ok place) →
          let found :=
            (d.namespaceAt env.settings base).resolve env.machine "/WEB-INF/web.xml" .inside
          ((c.prepare env now).outcome ≠ .ok () ↔ ∃ r, found = some r ∧ r.kind = .directory) ∧
            ((c.prepare env now).outcome = .ok () →
              (c.prepare env now).context.attributes.get? descriptorAttribute =
                found.map (·.path.text)) := by
  obtain ⟨-, -, -, hstate, -⟩ := ofDescriptor_spec hc
  have hpending : c.IsPending := .inl hstate
  have hprocessors := processors_default (instances_ofDescriptor hc) hregistry hlist
  refine ⟨fun hok => ?_, fun base hbase hcanonical => ?_⟩
  · cases hbase : c.establish env with
    | error e =>
      rw [hpending.prepare_eq, hbase] at hok
      cases hok
    | ok base =>
      have hcases := prepare_default_cases hpending hbase hprocessors now
      rw [freshResources_ofDescriptor hc] at hcases
      rcases hcases with ⟨_, _, _, _, he⟩ | ⟨_, _, he⟩ |
        ⟨-, classes, archives, hclasses, harchives, -, hlibraries, -⟩
      · rw [hok] at he
        cases he
      · rw [hok] at he
        cases he
      · refine ⟨base, classes, archives, rfl, hclasses, harchives, ?_⟩
        rw [hlibraries, freshLibraries_ofDescriptor hc]
  · have hcases := prepare_default_cases hpending hbase hprocessors now
    rw [freshResources_ofDescriptor hc] at hcases
    intro found
    rcases hcases with ⟨dir, e, hleads, hplace, he⟩ | ⟨dir, ⟨r, hfound, hkind, -⟩, he⟩ |
      ⟨hfree, _, _, _, _, hok, _, hget⟩
    · -- the classes are there, and so they have a canonical path
      obtain ⟨place, hsome⟩ := hcanonical dir .directory hleads.kindOf
      rw [hplace] at hsome
      cases hsome
    · rw [he]
      refine ⟨⟨fun _ => ⟨r, hfound, hkind⟩, fun _ => by simp⟩, fun hok => ?_⟩
      cases hok
    · rw [hok]
      refine ⟨⟨fun hne => absurd rfl hne, ?_⟩, fun _ => ?_⟩
      · rintro ⟨r, hfound, hkind⟩
        exact absurd ⟨r, hfound, hkind, rfl⟩ (hfree r.path)
      · obtain ⟨-, -, hattributes⟩ := ofDescriptor_carries hc
        rw [hget, hattributes]
        exact Option.or_none

/-- An application with classes, two archives and a deployment descriptor. -/
def webFiles : FileTree :=
  let file := FileTree.node (.file (.text "")) []
  .node .directory
    [("srv", .node .directory
      [("a", .node .directory
        [("WEB-INF", .node .directory
          [("classes", .node .directory []),
           ("lib", .node .directory [("b.jar", file), ("a.jar", file)]),
           ("web.xml", file)])])])]

/-- The surroundings of the small host, with these files and the built-in processors. -/
def defaultSurroundings (files : FileTree) : Environment :=
  { surroundings files with registry := .default }

/-- A descriptor for this application that has one of the archives on its extra classpath. -/
def webDescriptor : Descriptor :=
  { Descriptor.ofBase "/A" "/srv/a" with extraClasspath := some "/srv/a/WEB-INF/lib/b.jar" }

/-- The context for this descriptor. -/
def webContext : Context :=
  { sampleContext with extraClasspath := some "/srv/a/WEB-INF/lib/b.jar" }

/-- The surroundings with these files. -/
def webSurroundings : Environment :=
  defaultSurroundings webFiles

/-- The application is prepared, and its deployment descriptor is found. -/
theorem default_search_path_web :
    ofDescriptor ⟨0⟩ ⟨0, 0⟩ webDescriptor = .ok webContext ∧ webSurroundings.registry = .default ∧
      (webContext.chooseProcessors webSurroundings).identifiers = ["webinf", "webxml"] ∧
      (webContext.prepare webSurroundings ⟨1, 0⟩).outcome = .ok () ∧
      (∃ base classes archives, webContext.establish webSurroundings = .ok base ∧
        IsClasses webSurroundings.machine
          (webDescriptor.namespaceAt webSurroundings.settings base) classes ∧
        IsArchives webSurroundings.settings.classpath webSurroundings.machine
          (webDescriptor.namespaceAt webSurroundings.settings base) archives ∧
        (webContext.prepare webSurroundings ⟨1, 0⟩).context.libraries.libraries =
          Library.eachPlaceOnce
            (extraLibraries webDescriptor webSurroundings ++ (classes ++ archives))) ∧
      (∀ p kind, webSurroundings.machine.kindOf p = .ok kind →
        ∃ place, webSurroundings.machine.canonical p = .ok place) ∧
      (webContext.prepare webSurroundings ⟨1, 0⟩).context.attributes.get? descriptorAttribute =
        some "/srv/a/WEB-INF/web.xml" := by
  have hc : ofDescriptor ⟨0⟩ ⟨0, 0⟩ webDescriptor = .ok webContext := by
    rfl
  have hlist :
      (webContext.chooseProcessors webSurroundings).identifiers = ["webinf", "webxml"] := by
    rfl
  have hshort : webFiles.IsShort := by
    decide +kernel
  have hcanonical : ∀ p kind, webSurroundings.machine.kindOf p = .ok kind →
      ∃ place, webSurroundings.machine.canonical p = .ok place :=
    fun _ _ hkind => Machine.exists_canonical hshort hkind
  have hbase : webContext.establish webSurroundings = .ok (.directory ⟨"/srv/a"⟩) := by
    decide +kernel
  have hok : (webContext.prepare webSurroundings ⟨1, 0⟩).outcome = .ok () := by
    decide +kernel
  have hfound : (webDescriptor.namespaceAt webSurroundings.settings
      (.directory ⟨"/srv/a"⟩)).resolve webSurroundings.machine "/WEB-INF/web.xml" .inside =
        some ⟨"/WEB-INF/web.xml", ⟨"/srv/a/WEB-INF/web.xml"⟩, .file⟩ := by
    decide +kernel
  obtain ⟨hlibraries, hends⟩ := default_search_path hc rfl hlist ⟨1, 0⟩
  obtain ⟨-, hattribute⟩ := hends _ hbase hcanonical
  refine ⟨hc, rfl, hlist, hok, hlibraries hok, hcanonical, ?_⟩
  rw [hattribute hok, hfound]
  rfl

/-- A directory with a long name and a short link to it, in a directory of the same kind, and so
    on `n` times. In the innermost one is an archive. -/
def nestedDirectories : Nat → FileTree
  | 0 => .node .directory [("x.jar", .node (.file (.text "")) [])]
  | n + 1 =>
    let name := String.ofList (List.replicate 120 'd')
    .node .directory [(name, nestedDirectories n), ("n", .node (.link name) [])]

/-- An application whose library directory is a link to the innermost one of 34. -/
def deepFiles : FileTree :=
  let links := String.ofList (List.replicate 34 ['/', 'n']).flatten
  .node .directory
    [("srv", .node .directory
      [("a", .node .directory
        [("WEB-INF", .node .directory [("lib", .node (.link ("/deep" ++ links)) [])])])]),
     ("deep", nestedDirectories 34)]

/-- The small machine with this application. -/
def deepMachine : Machine :=
  { Sample.machine with files := deepFiles }

/-- The library directory of the application. -/
def deepLib : FilePath := ⟨"/srv/a/WEB-INF/lib"⟩

/-- The new context after it was prepared there. -/
def deepPrepared : Preparation :=
  sampleContext.prepare (defaultSurroundings deepFiles) ⟨1, 0⟩

/-- The links lead to a directory whose path from the root is too long. The archive in it can be
    looked up, and yet the application is prepared without it. -/
theorem archives_not_listed :
    ofDescriptor ⟨0⟩ ⟨0, 0⟩ (.ofBase "/A" "/srv/a") = .ok sampleContext ∧
      (sampleContext.chooseProcessors (defaultSurroundings deepFiles)).identifiers =
        ["webinf", "webxml"] ∧
      deepPrepared.outcome = .ok () ∧
      deepPrepared.context.resource deepMachine "/WEB-INF/lib/" .inside =
        some ⟨"/WEB-INF/lib/", deepLib, .directory⟩ ∧
      deepMachine.names? deepLib = some ["x.jar"] ∧
      deepMachine.isFile (deepLib.join ⟨"x.jar"⟩) = true ∧
      (defaultSurroundings deepFiles).settings.classpath.isArchive (deepLib.join ⟨"x.jar"⟩) = true ∧
      deepPrepared.context.libraries.libraries = [] := by
  refine ⟨rfl, rfl, ?_⟩
  decide +kernel

end Context

end Hosting
