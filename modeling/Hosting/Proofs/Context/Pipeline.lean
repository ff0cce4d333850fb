import Hosting.Proofs.Context.Retries
import Hosting.Proofs.Library.Listings

/-! # The pipeline of a preparation

    When the base of a context is found, its processors come from one source, and they run one
    after the other. The first of them finds a fresh setup, and each of the others finds what
    the one before it has left. The first that fails ends the preparation. If none fails, the
    context takes over what the last one has left.

    - `isFirstOf_chooseProcessors`: which source the processors come from.
    - `exists_passes`: a run of processors, processor by processor.
    - `prepare_pipeline`: a preparation as a whole.
-/

namespace Hosting

/-! ### Processors at work -/

namespace Processor

/-- One processor at work. -/
structure Pass where
  processor : Processor
  /-- The setup as the processor finds it. -/
  found : Setup
  done : Configured

/-- What the last of the processors has left. -/
def left (first : Setup) (passes : List Pass) : Setup :=
  (passes.getLast?.map (·.done.setup)).getD first

/-- Processors at work one after the other, the first of them on the setup `first`. -/
structure InOrder (view : SetupView) (first : Setup) (passes : List Pass) : Prop where
  done : ∀ pass ∈ passes, pass.done = pass.processor.configure view pass.found
  first : ∀ pass ∈ passes.head?, pass.found = first
  next : passes.IsChain fun pass after => after.found = pass.done.setup

/-- How the passes over a list of processors end, with the failure that comes of it. -/
inductive Ends (processors : List Processor) (passes : List Pass) :
    Option (String × ProcessorError) → Prop where
  /-- All processors have run. -/
  | complete : processors = passes.map (·.processor) →
      (∀ pass ∈ passes, pass.done.failure = none) → Ends processors passes none
  /-- The last one that has run is the first that has failed. -/
  | broken (earlier : List Pass) (last : Pass) (cause : ProcessorError)
      (later : List Processor) :
      passes = earlier ++ [last] → processors = passes.map (·.processor) ++ later →
      (∀ pass ∈ earlier, pass.done.failure = none) → last.done.failure = some cause →
      Ends processors passes (some (last.processor.name, cause))

/-- A processor on a setup. -/
def passOf (view : SetupView) (p : Processor) (found : Setup) : Pass :=
  ⟨p, found, p.configure view found⟩

variable {view : SetupView} {first : Setup} {passes : List Pass}

theorem left_cons (pass : Pass) : left first (pass :: passes) = left pass.done.setup passes := by
  unfold left
  rw [List.getLast?_cons]
  cases passes.getLast? <;> rfl

/-- A processor runs before the others, which find what it leaves. -/
theorem InOrder.cons {p : Processor} (h : InOrder view (p.configure view first).setup passes) :
    InOrder view first (passOf view p first :: passes) := by
  refine ⟨fun pass hpass => ?_, fun pass hpass => ?_, ?_⟩
  · rcases List.mem_cons.1 hpass with rfl | hrest
    · rfl
    · exact h.done pass hrest
  · obtain rfl := Option.some.inj hpass
    rfl
  · cases passes with
    | nil => exact .singleton _
    | cons pass rest => exact .cons_cons (h.first pass rfl) h.next

theorem Ends.cons {p : Processor} {processors : List Processor} {pass : Pass}
    {failure : Option (String × ProcessorError)} (h : Ends processors passes failure)
    (hp : pass.processor = p) (hok : pass.done.failure = none) :
    Ends (p :: processors) (pass :: passes) failure := by
  cases h with
  | complete hall hnone =>
    refine .complete ?_ fun other hother => ?_
    · rw [hall, List.map_cons, hp]
    · rcases List.mem_cons.1 hother with rfl | hrest
      · exact hok
      · exact hnone other hrest
  | broken earlier last cause later hpasses hall hnone hlast =>
    refine .broken (pass :: earlier) last cause later ?_ ?_ (fun other hother => ?_) hlast
    · rw [hpasses, List.cons_append]
    · rw [hall, List.map_cons, hp, List.cons_append]
    · rcases List.mem_cons.1 hother with rfl | hrest
      · exact hok
      · exact hnone other hrest

/-- A run goes over its processors one by one. What it leaves, what it asks of the host and how it
    fails is what they do. -/
theorem exists_passes (view : SetupView) (processors : List Processor) (first : Setup) :
    ∃ passes, InOrder view first passes ∧
      (run view processors first).calls = passes.flatMap (·.done.calls) ∧
      (run view processors first).setup = left first passes ∧
      Ends processors passes (run view processors first).failure := by
  induction processors generalizing first with
  | nil =>
    refine ⟨[], ⟨?_, ?_, .nil⟩, rfl, rfl, .complete rfl ?_⟩ <;> intro pass hpass <;> cases hpass
  | cons p rest ih =>
    let pass := passOf view p first
    have hpass : pass.done = p.configure view first := rfl
    unfold run
    simp only
    cases hfailure : (p.configure view first).failure with
    | some cause =>
      -- the others are not reached
      have halone : InOrder view (p.configure view first).setup [] := by
        refine ⟨?_, ?_, .nil⟩ <;> intro pass hpass <;> cases hpass
      refine ⟨[pass], halone.cons, ?_, rfl,
        .broken [] pass cause rest rfl rfl ?_ (by rw [hpass, hfailure])⟩
      · show (p.configure view first).calls = pass.done.calls ++ []
        rw [List.append_nil, hpass]
      · intro other hother
        cases hother
    | none =>
      obtain ⟨passes, horder, hcalls, hleft, hends⟩ := ih (p.configure view first).setup
      refine ⟨pass :: passes, horder.cons, ?_, ?_, hends.cons rfl (by rw [hpass, hfailure])⟩
      · show (p.configure view first).calls ++ _ = _
        rw [hcalls, List.flatMap_cons, hpass]
      · show (run view rest (p.configure view first).setup).setup = _
        rw [hleft, left_cons, hpass]

end Processor

namespace Context

open Processor

/-! ### Sources -/

/-- What the four sources hold for a context, the one that is looked at first in front. -/
def sources (c : Context) (env : Environment) : List ProcessorList :=
  [⟨.instances, c.instances.map (·.name), c.instances⟩,
   .ofIdentifiers env.registry .identifiers c.identifiers,
   .ofIdentifiers env.registry .hostList (env.settings.processors.getD []),
   .ofIdentifiers env.registry .builtin env.settings.builtinProcessors]

/-- The list is the first of them that is not empty, or the last one if all are. -/
def IsFirstOf (lists : List ProcessorList) (list : ProcessorList) : Prop :=
  ∃ earlier later, lists = earlier ++ list :: later ∧ (∀ other ∈ earlier, other.identifiers = []) ∧
    (list.identifiers = [] → later = [])

theorem isFirstOf_chooseProcessors (c : Context) (env : Environment) :
    IsFirstOf (c.sources env) (c.chooseProcessors env) := by
  unfold chooseProcessors ProcessorList.choose sources
  by_cases hinstances : c.instances = []
  · rw [if_neg (by simp [hinstances])]
    by_cases hidentifiers : c.identifiers = []
    · rw [if_neg (by simp [hidentifiers])]
      -- a host without a list counts as one with an empty list
      have hempty : ∀ other ∈
          [(⟨.instances, c.instances.map (·.name), c.instances⟩ : ProcessorList),
          .ofIdentifiers env.registry .identifiers c.identifiers,
          .ofIdentifiers env.registry .hostList []], other.identifiers = [] := by
        simp [hinstances, hidentifiers, ProcessorList.ofIdentifiers]
      cases env.settings.processors with
      | none => exact ⟨_, [], rfl, hempty, fun _ => rfl⟩
      | some names =>
        cases names with
        | nil => exact ⟨_, [], rfl, hempty, fun _ => rfl⟩
        | cons first rest =>
          refine ⟨[_, _], [_], rfl, ?_, fun hnil => ?_⟩
          · simp [hinstances, hidentifiers, ProcessorList.ofIdentifiers]
          · cases hnil
    · rw [if_pos (by simpa using hidentifiers)]
      refine ⟨[_], [_, _], rfl, ?_, fun hnil => absurd hnil hidentifiers⟩
      simp [hinstances]
  · rw [if_pos (by simpa using hinstances)]
    refine ⟨[], [_, _, _], rfl, ?_, fun hnil => ?_⟩
    · intro other hother
      cases hother
    · exact absurd (List.map_eq_nil_iff.1 hnil) hinstances

/-! ### Preparations -/

/-- The setup before any processor has run. Nothing of an earlier preparation is in it but what
    the context itself carries: its routes and its attributes. -/
structure IsFresh (c : Context) (env : Environment) (base : BaseResource) (setup : Setup) :
    Prop where
  /-- The routes of the context, registered one after the other below the base. -/
  resources : setup.resources =
    (⟨some base, [], .ofNames env.settings.protectedTargets⟩ : Namespace).registerAliases
      c.resources.aliases
  /-- The libraries of the extra classpath, as they are listed there. -/
  libraries : setup.libraries.libraries =
    match c.extraClasspath with
    | none => []
    | some raw =>
      env.settings.classpath.resolveText env.machine raw (env.settings.classpathPath env.machine)
  parentFirst : setup.libraries.parentFirst = c.parentFirst
  visibility : setup.libraries.visibility = c.visibility env.settings
  attributes : setup.attributes = c.attributes

theorem isFresh_freshSetup (c : Context) (env : Environment) (base : BaseResource) :
    c.IsFresh env base (c.freshSetup env base) := by
  have hpath : (c.freshLibraries env).libraries =
        (match c.extraClasspath with
        | none => []
        | some raw => env.settings.classpath.resolveText env.machine raw
            (env.settings.classpathPath env.machine)) ∧
      (c.freshLibraries env).parentFirst = c.parentFirst ∧
      (c.freshLibraries env).visibility = c.visibility env.settings := by
    unfold freshLibraries
    cases c.extraClasspath with
    | none => exact ⟨rfl, rfl, rfl⟩
    | some raw =>
      -- the classpath names no place twice, so that nothing is passed over
      have hdistinct := Classpath.atDistinctPlaces_resolveText env.settings.classpath env.machine
        raw (env.settings.classpathPath env.machine)
      simp only [LibrarySet.pushAll_eq, Classpath.foldl_addNew_nil hdistinct, and_self]
  obtain ⟨hlibraries, hfirst, hrules⟩ := hpath
  exact ⟨rfl, hlibraries, hfirst, hrules, rfl⟩

/-- A preparation that has found the base `base`, processor by processor. -/
structure IsPipeline (c : Context) (env : Environment) (now : Instant) (base : BaseResource)
    (list : ProcessorList) (first : Setup) (passes : List Pass) : Prop where
  source : IsFirstOf (c.sources env) list
  fresh : c.IsFresh env base first
  inOrder : InOrder (c.view env) first passes
  /-- What the processors ask of the host, in order, and nothing else is asked of it. -/
  calls : (c.prepare env now).calls = passes.flatMap (·.done.calls)
  /-- A processor has failed, and those of the list behind it have not run; or all of the list
      have run, and none has failed. -/
  ending :
    (∃ earlier last cause later, passes = earlier ++ [last] ∧
        list.processors = passes.map (·.processor) ++ later ∧
        (∀ pass ∈ earlier, pass.done.failure = none) ∧ last.done.failure = some cause ∧
        let e := HostError.configuration c.path.text last.processor.name cause
        (c.prepare env now).outcome = .error e ∧
          (c.prepare env now).context = { c with state := .failed e.message }) ∨
      (list.processors = passes.map (·.processor) ∧
        (∀ pass ∈ passes, pass.done.failure = none) ∧ (c.prepare env now).outcome = .ok () ∧
        (c.prepare env now).context =
          { c with
            state := .started
            resources := (left first passes).resources
            processors := some list
            libraries := (left first passes).libraries
            attributes := (left first passes).attributes
            startedAt := some now })

/-- A preparation whose base is found takes its processors from one source, and runs those of its
    identifiers that have a processor, each once and in order, up to the first that fails. The
    first of them finds the fresh setup, and each of the others what the one before has left. If
    one fails, the error names it, and only the state of the context tells of the preparation.
    If none fails, the context is started with the list as its source has it and with the setup
    as the last processor has left it. -/
theorem prepare_pipeline {c : Context} {env : Environment} {base : BaseResource}
    (hc : c.IsPending) (hbase : c.establish env = .ok base) (now : Instant) :
    ∃ list first passes, c.IsPipeline env now base list first passes := by
  let list := c.chooseProcessors env
  let first := c.freshSetup env base
  obtain ⟨passes, horder, hcalls, hleft, hends⟩ :=
    exists_passes (c.view env) list.processors first
  have hprepare : c.prepare env now = c.prepareAt env now base := by
    rw [hc.prepare_eq, hbase]
  refine ⟨list, first, passes, isFirstOf_chooseProcessors c env, isFresh_freshSetup c env base,
    horder, ?_, ?_⟩
  · rw [hprepare, ← hcalls]
    unfold prepareAt
    simp only
    split <;> rfl
  · rw [hprepare]
    unfold prepareAt
    simp only
    generalize (run (c.view env) list.processors first).failure = failure at hends
    cases hends with
    | broken earlier last cause later hpasses hall hnone hlast =>
      exact .inl ⟨earlier, last, cause, later, hpasses, hall, hnone, hlast, rfl, rfl⟩
    | complete hall hnone =>
      refine .inr ⟨hall, hnone, rfl, ?_⟩
      show c.takeOver list (run (c.view env) list.processors first).setup now = _
      rw [hleft]
      rfl

/-- The new context for the directory of the small machine, with a list that names a processor
    which is not there, one that fails, and one behind it. -/
def mixedContext : Context :=
  { sampleContext with identifiers := ["webinf", "missing", "demanding", "webxml"] }

/-- The surroundings with nothing to serve, where the demanding processor is known. -/
def mixedSurroundings : Environment :=
  { surroundings emptyDirectory with
    registry := ProcessorRegistry.default.register "demanding" demanding }

/-- The one that fails is named, and two processors have run by then. -/
theorem prepare_pipeline_mixed :
    mixedContext.IsPending ∧
      mixedContext.establish mixedSurroundings = .ok (.directory ⟨"/srv/a"⟩) ∧
      (mixedContext.prepare mixedSurroundings ⟨1, 0⟩).outcome =
        .error (.configuration "/A" "demanding" (.invalid "nothing to serve")) ∧
      ∃ list first passes,
        mixedContext.IsPipeline mixedSurroundings ⟨1, 0⟩ (.directory ⟨"/srv/a"⟩) list first passes ∧
          passes.getLast?.map (·.processor.name) = some "demanding" := by
  have hpending : mixedContext.IsPending := .inl rfl
  have hbase : mixedContext.establish mixedSurroundings = .ok (.directory ⟨"/srv/a"⟩) := by
    rfl
  have hfails : (mixedContext.prepare mixedSurroundings ⟨1, 0⟩).outcome =
      .error (.configuration "/A" "demanding" (.invalid "nothing to serve")) := by
    decide +kernel
  obtain ⟨list, first, passes, h⟩ := prepare_pipeline hpending hbase ⟨1, 0⟩
  refine ⟨hpending, hbase, hfails, list, first, passes, h, ?_⟩
  rcases h.ending with ⟨earlier, last, cause, later, hpasses, -, -, -, he, -⟩ | ⟨-, -, hok, -⟩
  · rw [hfails] at he
    obtain ⟨-, hname, -⟩ := HostError.configuration.inj (Except.error.inj he)
    rw [hpasses, List.getLast?_append]
    exact congrArg some hname.symm
  · rw [hfails] at hok
    cases hok

end Context

end Hosting
