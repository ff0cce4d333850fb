import Hosting.Proofs.Context.Quiet
import Hosting.Proofs.Host.Registry

/-! # Requests to a quiet host

    Where no processor calls the host, an operation does nothing but what it was asked for.
    A host is then followed request by request.

    - `Request`, `Handles`, `Run`: what is asked, what becomes of it, and sequences of it.
      Each preparation may see a file tree of its own, and a start of all may end its
      preparations in any order.
    - `Quiet`: no processor of the host calls it. Requests keep it so.
    - `Calm`: quiet, with its tables and its database in agreement.
-/

namespace Hosting

namespace Host

variable {h h' : Host}

/-! ### Requests -/

/-- What is asked of a host. -/
inductive Request where
  | deploy (d : Descriptor)
  | undeploy (path : ContextPath)
  | prepare (path : ContextPath)
  | startAll
  | redeploy (path : ContextPath)

/-- The path or the error that a deployment or an undeployment ends with. There is none for other
    requests. -/
abbrev Answer := Option (Except Failure ContextPath)

/-- What becomes of a request. -/
inductive Handles : Host → Request → Answer → Host → Prop where
  | deploy (h : Host) (d : Descriptor) :
      Handles h (.deploy d) (some (h.deploy d).2) (h.deploy d).1
  | undeploy (h : Host) (path : ContextPath) :
      Handles h (.undeploy path) (some ((h.undeploy path).2.map (·.path))) (h.undeploy path).1
  | prepare (h : Host) (m : Machine) (path : ContextPath) :
      Handles h (.prepare path) none (h.prepare m path).1
  | redeploy (h : Host) (m : Machine) (path : ContextPath) :
      Handles h (.redeploy path) none (h.redeploy m path).1
  /-- A start of all, in any order of its moves. -/
  | startAll (h : Host) (machine : Context → Machine) (moves : List Move) :
      Interleaved ((h.startupTasksOn machine).map StartupTask.moves) moves →
      Handles h .startAll none (h.tick.playAll moves)

/-- Requests one after the other, with their answers. -/
inductive Run : Host → List Request → List Answer → Host → Prop where
  | nil (h : Host) : Run h [] [] h
  | cons {h h₁ h₂ : Host} {r : Request} {a : Answer} {requests : List Request}
      {answers : List Answer} :
      Handles h r a h₁ → Run h₁ requests answers h₂ →
      Run h (r :: requests) (a :: answers) h₂

/-- A start of all with one file tree for all preparations, which it ends one by one. -/
theorem handles_startAll (h : Host) (m : Machine) : Handles h .startAll none (h.startAll m).1 := by
  rw [startAll_eq_playAll]
  exact .startAll h (fun _ => m) _ (Interleaved.flatten _)

/-! ### The processors of a host -/

@[simp] theorem registry_record (h : Host) (path : ContextPath) (event : String)
    (details : Option String) : (h.record path event details).registry = h.registry :=
  record_keeps (·.registry) (fun _ _ _ => rfl) h path event details

@[simp] theorem registry_recordStartup (h : Host) (path : ContextPath)
    (outcome : Except HostError Unit) :
    (h.recordStartup path outcome).registry = h.registry := by
  rw [recordStartup_eq, registry_record]

@[simp] theorem registry_onDatabase (h : Host) (f : Tables → Except Failure Tables) :
    (h.onDatabase f).1.registry = h.registry :=
  onDatabase_keeps (·.registry) (fun _ _ => rfl) h f

@[simp] theorem registry_storeDeployment (h : Host) (path : ContextPath) (d : Descriptor) :
    (h.storeDeployment path d).1.registry = h.registry := by
  unfold storeDeployment
  split <;> simp

@[simp] theorem registry_register (h : Host) (d : Descriptor) :
    (h.register d).1.registry = h.registry := by
  rcases register_cases h d with ⟨e, he⟩ | ⟨c, -, -, hok⟩
  · rw [he]
    rfl
  · rw [hok]
    rfl

@[simp] theorem registry_deploy (h : Host) (d : Descriptor) :
    (h.deploy d).1.registry = h.registry := by
  rcases deploy_parts h d with hr | ⟨path, hs | hs⟩
  · rw [hr, registry_register]
  · rw [hs, registry_storeDeployment, registry_register]
  · rw [hs, registry_record, registry_storeDeployment, registry_register]

@[simp] theorem registry_undeploy (h : Host) (path : ContextPath) :
    (h.undeploy path).1.registry = h.registry := by
  rcases undeploy_parts h path with hsame | ⟨f, hs | hs⟩
  · rw [hsame]
  · rw [hs, registry_onDatabase]
    rfl
  · rw [hs, registry_record, registry_onDatabase]
    rfl

/-- Nothing that the host runs calls it. -/
structure Quiet (h : Host) : Prop where
  registry : h.registry.IsQuiet
  /-- No context has processors of its own. -/
  instances {p : ContextPath} {c : Context} :
    h.contexts.get? p = some c → c.instances = []

namespace Quiet

theorem of_eq (hq : h.Quiet) (hregistry : h'.registry = h.registry)
    (hcontexts : h'.contexts = h.contexts) : h'.Quiet := by
  refine ⟨?_, fun hc => ?_⟩
  · rw [hregistry]
    exact hq.registry
  · rw [hcontexts] at hc
    exact hq.instances hc

theorem tick (hq : h.Quiet) : h.tick.Quiet :=
  hq.of_eq rfl rfl

theorem insertContext (hq : h.Quiet) {c : Context} (hc : c.instances = []) :
    (h.insertContext c).Quiet := by
  refine ⟨hq.registry, fun {p c'} hc' => ?_⟩
  rw [contexts_insertContext, PathTable.get?_insert] at hc'
  split at hc'
  · obtain rfl := Option.some.inj hc'
    exact hc
  · exact hq.instances hc'

theorem register (hq : h.Quiet) (d : Descriptor) : (h.register d).1.Quiet := by
  rcases register_cases h d with ⟨e, he⟩ | ⟨c, hc, -, hok⟩
  · rw [he]
    exact hq.tick
  · rw [hok]
    exact (hq.tick.insertContext (Context.instances_ofDescriptor hc)).of_eq rfl rfl

theorem deploy (hq : h.Quiet) (d : Descriptor) : (h.deploy d).1.Quiet :=
  (hq.register d).of_eq (by simp) (tables_deploy h d).1

theorem undeploy (hq : h.Quiet) (path : ContextPath) : (h.undeploy path).1.Quiet := by
  rcases tables_undeploy h path with hsame | ⟨hcontexts, -⟩
  · rw [hsame]
    exact hq
  · refine ⟨?_, fun {p c} hc => ?_⟩
    · rw [registry_undeploy]
      exact hq.registry
    · rw [hcontexts, PathTable.get?_erase] at hc
      split at hc
      · simp at hc
      · exact hq.instances hc

theorem restore {db : Database} {registry : ProcessorRegistry} {supply : Supply}
    (hr : restore db registry supply = .ok h) (hquiet : registry.IsQuiet) : h.Quiet := by
  refine restore_induction hr (fun settings => ⟨hquiet, fun hc => ?_⟩) fun h d hq => hq.register d
  simp [ofSettings] at hc

end Quiet

theorem calls_preparationOf (hq : h.Quiet) {c : Context} (hc : c.instances = []) (m : Machine) :
    (h.preparationOf m c).calls = [] :=
  Context.calls_prepare hc hq.registry _

/-! ### Calm hosts -/

/-- The tables in memory and the database agree, and no processor can disturb that. -/
structure Calm (h : Host) : Prop where
  keyed : h.Keyed
  mirrored : h.Mirrored
  quiet : h.Quiet
  /-- No settings are stored, so a host that is made from the database has the default ones. -/
  unset : h.storedSettings = none

end Host

end Hosting
