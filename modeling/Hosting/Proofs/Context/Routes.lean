import Hosting.Proofs.Context.Retries
import Hosting.Proofs.Lookup.AliasTables
import Hosting.Proofs.Path.Reading

/-! # Routes that a context carries

    A context carries the routes that were registered on it. A preparation registers them again, in
    their order, on a namespace that has none, and its processors go on from there. The context
    takes that namespace over if the preparation succeeds.

    - `Processor.KeepsRoutes`: processors that register no routes.
    - `CarriesRoutes`: what is registered again gives the same table.
    - `Prepared`: preparations one after the other, whether they fail or succeed.
    - `routes_replayed`: the table of any registrations, and what preparations leave of it.
-/

namespace Hosting

/-! ### Processors that register nothing -/

namespace Processor

/-- The processor leaves the routes as it finds them. -/
def KeepsRoutes (p : Processor) : Prop :=
  ∀ view setup, (p.configure view setup).setup.resources.aliases = setup.resources.aliases

theorem aliases_run {processors : List Processor} (hkeep : ∀ p ∈ processors, p.KeepsRoutes)
    (view : SetupView) (setup : Setup) :
    (run view processors setup).setup.resources.aliases = setup.resources.aliases := by
  induction processors generalizing setup with
  | nil => rfl
  | cons p rest ih =>
    have hp : (p.configure view setup).setup.resources.aliases = setup.resources.aliases :=
      hkeep p List.mem_cons_self view setup
    have hrest := ih (fun q hq => hkeep q (List.mem_cons_of_mem _ hq)) (p.configure view setup).setup
    unfold run
    simp only
    split
    · exact hp
    · exact hrest.trans hp

theorem keepsRoutes_webInf : webInf.KeepsRoutes := by
  intro view setup
  have hlib (other : Setup) : (addLib view other).resources = other.resources := by
    unfold addLib
    split <;> rfl
  unfold webInf succeed
  simp only
  split
  · split
    · rfl
    · rw [hlib]
  · rw [hlib]

theorem keepsRoutes_webXml : webXml.KeepsRoutes := by
  intro view setup
  unfold webXml succeed
  simp only
  split <;> rfl

end Processor

namespace Context

open Namespace Processor VirtualPath

/-! ### Routes between calls -/

/-- A context that can be prepared has its routes as a table keeps them. -/
def CarriesRoutes (c : Context) : Prop :=
  c.IsPending → AreKept c.resources.aliases

/-- A preparation starts from the routes of the context. -/
theorem aliases_freshResources {c : Context} (h : AreKept c.resources.aliases)
    (settings : Settings) (base : BaseResource) :
    (c.freshResources settings base).aliases = c.resources.aliases :=
  aliases_replayed rfl h

theorem IsNew.carriesRoutes {c : Context} (hc : c.IsNew) : c.CarriesRoutes := by
  intro _
  cases hc with
  | ofBase => exact areKept_nil
  | ofDescriptor h =>
    unfold Context.ofDescriptor at h
    split at h
    · cases h
    · obtain rfl := Except.ok.inj h
      exact areKept_nil.registerAliases _

/-- No call takes this away, whatever the processors of a preparation do. -/
theorem CarriesRoutes.call {c : Context} (hc : c.CarriesRoutes) (k : Call) :
    (c.call k).1.CarriesRoutes := by
  intro hpending
  cases k with
  | set s =>
    have hbefore : c.IsPending := by
      unfold IsPending at hpending ⊢
      rwa [state_call_set] at hpending
    have hkept := hc hbefore
    unfold Context.call
    rcases set_cases c s with hok | ⟨e, he⟩
    · simp only [hok]
      cases s with
      | route source target => exact hkept.registerAlias source target
      | _ => exact hkept
    · simp only [he]
      exact hkept
  | prepare env now =>
    show AreKept (c.prepare env now).context.resources.aliases
    have hafter : (c.prepare env now).context.IsPending := hpending
    rcases prepare_cases c env now with ⟨-, h⟩ | ⟨-, h⟩ | ⟨hbefore, e, calls, -, h⟩ |
      ⟨-, list, setup, calls, h⟩
    all_goals rw [h] at hafter ⊢
    · exact hc hafter
    · exact hc hafter
    · exact hc hbefore
    · -- what the processors have made of the routes counts no more: the context is started
      exact absurd hafter (not_isPending (.inr (.inl rfl)))
  | markStopped => exact absurd hpending (not_isPending (.inr (.inr rfl)))

theorem CarriesRoutes.callAll {c : Context} (hc : c.CarriesRoutes) (calls : List Call) :
    (c.callAll calls).CarriesRoutes := by
  induction calls generalizing c with
  | nil => exact hc
  | cons k calls ih => exact ih (hc.call k)

/-! ### Preparations -/

/-- The second context is what preparations leave of the first. They may fail or succeed, each in
    surroundings of its own, and no processor that may run in one of them registers routes. -/
inductive Prepared : Context → Context → Prop where
  | refl (c : Context) : Prepared c c
  | prepare {c c' : Context} {env : Environment} {now : Instant} :
      (∀ p ∈ (c.chooseProcessors env).processors, p.KeepsRoutes) →
      Prepared (c.prepare env now).context c' → Prepared c c'

theorem aliases_prepare {c : Context} (hc : c.CarriesRoutes) {env : Environment}
    (hkeep : ∀ p ∈ (c.chooseProcessors env).processors, p.KeepsRoutes) (now : Instant) :
    (c.prepare env now).context.resources.aliases = c.resources.aliases := by
  rcases prepare_cases c env now with ⟨-, h⟩ | ⟨-, h⟩ | ⟨-, e, calls, -, h⟩ | ⟨hpending, -⟩
  · rw [h]
  · rw [h]
  · rw [h]
    rfl
  · rw [hpending.prepare_eq]
    cases c.establish env with
    | error e => rfl
    | ok base =>
      have hfresh := aliases_freshResources (hc hpending) env.settings base
      have hrun := aliases_run hkeep (c.view env) (c.freshSetup env base)
      show (c.prepareAt env now base).context.resources.aliases = c.resources.aliases
      unfold prepareAt
      simp only
      split
      · rfl
      · exact hrun.trans hfresh

theorem aliases_prepared {c c' : Context} (hc : c.CarriesRoutes) (h : Prepared c c') :
    c'.resources.aliases = c.resources.aliases := by
  induction h with
  | refl => rfl
  | @prepare c c' env now hkeep _ ih =>
    exact (ih (hc.call (.prepare env now))).trans (aliases_prepare hc hkeep now)

/-- After any registrations a namespace holds normal spellings, one route from each prefix, and of
    each prefix the route that was accepted last, in the order of these. Registered again where
    there are no routes, its table gives the same table. A pair with a side that climbs above the
    root changes nothing. After any calls on a new context, a preparation starts from its routes,
    and any number of preparations leave them as they are if no processor registers any. -/
theorem routes_replayed (reserved : ProtectedTargets) (registrations : List (String × String))
    {c₀ : Context} (hnew : c₀.IsNew) (calls : List Call) :
    let table := ((ofTargets reserved).registerAliases registrations).aliases
    let c := c₀.callAll calls
    IsTableOf registrations table ∧
      (∀ ns : Namespace, ns.aliases = [] → (ns.registerAliases table).aliases = table) ∧
      (∀ (ns : Namespace) (source target : String),
        Climbs source.toList ∨ Climbs target.toList → ns.registerAlias source target = ns) ∧
      (c.IsPending → ∀ settings base,
        (c.freshResources settings base).aliases = c.resources.aliases) ∧
      ∀ c', Prepared c c' → c'.resources.aliases = c.resources.aliases := by
  intro table c
  have htable : IsTableOf registrations table := isTableOf_registerAliases reserved registrations
  have hcarries : c.CarriesRoutes := hnew.carriesRoutes.callAll calls
  refine ⟨htable, fun ns hnone => aliases_replayed hnone htable.kept, ?_, ?_, ?_⟩
  · intro ns source target hclimbs
    have hnone {path : String} (h : Climbs path.toList) : VirtualPath.normalize path = none :=
      normalize_eq_none_iff.2 ((plainSegments_eq_none_iff _).2 h)
    exact registerAlias_of_none (hclimbs.imp hnone hnone)
  · intro hpending settings base
    exact aliases_freshResources (hcarries hpending) settings base
  · intro c' hprepared
    exact aliases_prepared hcarries hprepared

/-- Routes as they are registered: the last takes the place of the first, and one climbs. -/
def respelledCalls : List (String × String) :=
  [("/x/", "/"), ("/up/../..", "/z"), ("y", "//static/"), ("/./x/", "/static")]

/-- The routes that are kept. -/
def respelledTable : List (String × String) :=
  [("/y", "/static/"), ("/x/", "/static")]

/-- The same routes are registered on a context, which is given the built-in processors. -/
def routedCalls : List Call :=
  .set (.instances [webInf, webXml]) :: respelledCalls.map fun route => .set (.route route.1 route.2)

/-- The context after it was prepared without any files and with those of the small machine. -/
def routedTwice : Context :=
  let once := ((sampleContext.callAll routedCalls).prepare (surroundings .empty) ⟨1, 0⟩).context
  (once.prepare (surroundings Sample.machine.files) ⟨2, 0⟩).context

/-- One preparation fails and the next one succeeds, and the routes are the same after both. -/
theorem routes_replayed_respelled :
    IsTableOf respelledCalls respelledTable ∧ sampleContext.IsNew ∧
      Prepared (sampleContext.callAll routedCalls) routedTwice ∧
      routedTwice.state = .started ∧ routedTwice.resources.aliases = respelledTable := by
  have hnew : sampleContext.IsNew := .ofBase _ _ _ _
  have htable : ((ofTargets .default).registerAliases respelledCalls).aliases = respelledTable := by
    decide +kernel
  have hroutes : (sampleContext.callAll routedCalls).resources.aliases = respelledTable := by
    decide +kernel
  have hkeep (c : Context) (env : Environment) (hc : c.instances = [webInf, webXml]) :
      ∀ p ∈ (c.chooseProcessors env).processors, p.KeepsRoutes := by
    intro p hp
    unfold chooseProcessors at hp
    rw [hc] at hp
    rcases List.mem_cons.1 hp with rfl | hp
    · exact keepsRoutes_webInf
    · obtain rfl := List.mem_singleton.1 hp
      exact keepsRoutes_webXml
  have htwice : Prepared (sampleContext.callAll routedCalls) routedTwice :=
    .prepare (hkeep _ (surroundings .empty) rfl)
      (.prepare (hkeep _ (surroundings Sample.machine.files) rfl) (.refl _))
  have hstarted : routedTwice.state = .started := by
    decide +kernel
  obtain ⟨hof, -, -, -, hkept⟩ := routes_replayed .default respelledCalls hnew routedCalls
  rw [htable] at hof
  exact ⟨hof, hnew, htwice, hstarted, (hkept routedTwice htwice).trans hroutes⟩

end Context

end Hosting
