import Hosting.Proofs.Context.Lifecycle

/-! # Processors that leave the host alone

    A processor may call the host that runs it. One that never does is quiet, and a
    preparation with quiet processors only is quiet as a whole: all it does is in the
    context that it gives back.

    - `IsQuiet`: of a processor, and of a registry that knows no other ones.
    - `calls_prepare`: a context without processors of its own is prepared quietly.
-/

namespace Hosting

/-! ### Processors -/

/-- The processor makes no calls to the host. -/
def Processor.IsQuiet (p : Processor) : Prop :=
  ∀ view setup, (p.configure view setup).calls = []

theorem Processor.calls_run {processors : List Processor} (hq : ∀ p ∈ processors, p.IsQuiet)
    (view : SetupView) (setup : Setup) : (run view processors setup).calls = [] := by
  induction processors generalizing setup with
  | nil => rfl
  | cons p rest ih =>
    have hp : (p.configure view setup).calls = [] := hq p (by simp) view setup
    have hrest := ih (fun q hq' => hq q (by simp [hq'])) (p.configure view setup).setup
    unfold run
    simp only
    split
    · exact hp
    · rw [hp, hrest]
      rfl

theorem Processor.isQuiet_webInf : webInf.IsQuiet := by
  intro view setup
  unfold webInf
  simp only
  split
  · split <;> rfl
  · rfl

theorem Processor.isQuiet_webXml : webXml.IsQuiet := by
  intro view setup
  unfold webXml
  simp only
  split <;> rfl

/-! ### Registries -/

/-- Every processor that the registry makes is quiet. -/
def ProcessorRegistry.IsQuiet (r : ProcessorRegistry) : Prop :=
  ∀ identifier p, r.create identifier = some p → p.IsQuiet

theorem ProcessorRegistry.isQuiet_empty : empty.IsQuiet := by
  intro identifier p h
  simp [create, empty] at h

theorem ProcessorRegistry.create_register (r : ProcessorRegistry) (identifier other : String)
    (p : Processor) :
    (r.register identifier p).create other =
      if other = identifier then some p else r.create other := by
  obtain ⟨entries⟩ := r
  unfold register create
  by_cases h : other = identifier
  · simp [h]
  · have hne : (other == identifier) = false := by simpa using h
    rw [if_neg h, List.lookup_cons, hne]
    simp only
    -- what was taken out is not what is looked up
    induction entries with
    | nil => rfl
    | cons entry rest ih =>
      by_cases hentry : entry.1 = identifier
      · have hother : (other == entry.1) = false := by rw [hentry]; exact hne
        rw [List.filter_cons_of_neg (by simp [hentry]), ih, List.lookup_cons, hother]
      · rw [List.filter_cons_of_pos (by simpa using hentry), List.lookup_cons, List.lookup_cons,
          ih]

theorem ProcessorRegistry.IsQuiet.register {r : ProcessorRegistry} (hr : r.IsQuiet)
    (identifier : String) {p : Processor} (hp : p.IsQuiet) :
    (r.register identifier p).IsQuiet := by
  intro other q hq
  rw [create_register] at hq
  split at hq
  · obtain rfl := Option.some.inj hq
    exact hp
  · exact hr other q hq

theorem ProcessorRegistry.isQuiet_default : default.IsQuiet :=
  (isQuiet_empty.register "webinf" Processor.isQuiet_webInf).register "webxml"
    Processor.isQuiet_webXml

theorem ProcessorList.isQuiet_ofIdentifiers {r : ProcessorRegistry} (hr : r.IsQuiet)
    (source : ProcessorSource) (identifiers : List String) :
    ∀ p ∈ (ofIdentifiers r source identifiers).processors, p.IsQuiet := by
  intro p hp
  obtain ⟨identifier, -, hcreate⟩ := List.mem_filterMap.1 hp
  exact hr identifier p hcreate

/-- Without processors given to the context, all of them come from the registry. -/
theorem ProcessorList.isQuiet_choose {r : ProcessorRegistry} (hr : r.IsQuiet)
    (identifiers : List String) (hostList : Option (List String)) (builtin : List String) :
    ∀ p ∈ (choose r [] identifiers hostList builtin).processors, p.IsQuiet := by
  unfold choose
  rw [if_neg (by simp)]
  split
  · exact isQuiet_ofIdentifiers hr _ _
  · split <;> exact isQuiet_ofIdentifiers hr _ _

/-! ### Preparations -/

namespace Context

theorem calls_prepare {c : Context} {env : Environment} (hc : c.instances = [])
    (hr : env.registry.IsQuiet) (now : Instant) : (c.prepare env now).calls = [] := by
  have hat (base : BaseResource) : (c.prepareAt env now base).calls = [] := by
    have hquiet : ∀ p ∈ (c.chooseProcessors env).processors, p.IsQuiet := by
      unfold chooseProcessors
      rw [hc]
      exact ProcessorList.isQuiet_choose hr _ _ _
    have hrun := Processor.calls_run hquiet (c.view env) (c.freshSetup env base)
    unfold prepareAt
    simp only
    split <;> exact hrun
  unfold prepare
  split
  · rfl
  · rfl
  · rfl
  all_goals
    split
    · rfl
    · exact hat _

theorem instances_ofDescriptor {id : DeploymentId} {now : Instant} {d : Descriptor} {c : Context}
    (h : ofDescriptor id now d = .ok c) : c.instances = [] := by
  unfold ofDescriptor at h
  split at h
  · simp at h
  · obtain rfl := Except.ok.inj h
    rfl

theorem instances_prepare (c : Context) (env : Environment) (now : Instant) :
    (c.prepare env now).context.instances = c.instances :=
  prepare_keeps (·.instances) (fun _ => rfl) (fun _ _ _ => rfl) env now

end Context

end Hosting
