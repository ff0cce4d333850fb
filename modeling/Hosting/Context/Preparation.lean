import Hosting.Context.Basic

/-! # Preparation

    A context is prepared by finding its base, choosing its processors, collecting its
    libraries and running the processors. All of it is done on the side: the context takes
    over the result if everything succeeds, and otherwise changes in its state only.

    - `start` is the setup that the first processor sees;
    - `products` is what the processors make of it;
    - `prepare` takes the result over.
-/

namespace Hosting

/-- What a host lends a context for its preparation. -/
structure Environment where
  machine : Machine
  settings : Settings
  registry : ProcessorRegistry

/-- A context after a preparation, with the calls its processors made to the host. -/
structure Preparation where
  context : Context
  calls : List HostCall
  outcome : Except HostError Unit

namespace Context

/-- The processors that would prepare the context now. -/
def chooseProcessors (c : Context) (env : Environment) : ProcessorList :=
  .choose env.registry c.instances c.identifiers env.settings.processors
    env.settings.builtinProcessors

/-- The rules for names from the host. -/
def visibility (c : Context) (settings : Settings) : Visibility where
  system := (PatternSet.ofPatterns settings.systemNames).addAll c.systemNames
  server := (PatternSet.ofPatterns settings.serverNames).addAll c.serverNames

/-- The namespace before any processor has run: the base, and the aliases of the context. -/
def freshResources (c : Context) (settings : Settings) (base : BaseResource) : Namespace :=
  ((Namespace.ofTargets (.ofNames settings.protectedTargets)).withBase base).registerAliases
    c.resources.aliases

/-- The search path before any processor has run: the libraries of the extra classpath. -/
def freshLibraries (c : Context) (env : Environment) : LibrarySet :=
  let bare : LibrarySet := ⟨[], c.parentFirst, c.visibility env.settings⟩
  match c.extraClasspath with
  | none => bare
  | some raw =>
    bare.pushAll (env.settings.classpath.resolveText env.machine raw
      (env.settings.classpathPath env.machine))

/-- The setup that the first processor sees. -/
def freshSetup (c : Context) (env : Environment) (base : BaseResource) : Setup :=
  ⟨c.freshResources env.settings base, c.freshLibraries env, c.attributes⟩

/-- What processors see and cannot change. -/
def view (c : Context) (env : Environment) : SetupView :=
  ⟨env.machine, c.path, env.settings.classpath⟩

/-- Finds the base of the context. -/
def establish (c : Context) (env : Environment) : Except HostError BaseResource :=
  BaseResource.establish env.machine c.path.text c.resourceBase
    (env.settings.deployPath env.machine)

/-- The context in the failed state. -/
def markFailed (c : Context) (e : HostError) : Context :=
  { c with state := .failed e.message }

/-- The context with the result of a successful run of its processors. -/
def takeOver (c : Context) (list : ProcessorList) (setup : Setup) (now : Instant) : Context :=
  { c with
    state := .started
    resources := setup.resources
    processors := some list
    libraries := setup.libraries
    attributes := setup.attributes
    startedAt := some now }

/-- Runs the processors of a context whose base is found. -/
def prepareAt (c : Context) (env : Environment) (now : Instant) (base : BaseResource) :
    Preparation :=
  let list := c.chooseProcessors env
  let run := Processor.run (c.view env) list.processors (c.freshSetup env base)
  match run.failure with
  | some (name, cause) =>
    let e := HostError.configuration c.path.text name cause
    ⟨c.markFailed e, run.calls, .error e⟩
  | none => ⟨c.takeOver list run.setup now, run.calls, .ok ()⟩

/-- Prepares the context. One that is started or stopped is left as it is. -/
def prepare (c : Context) (env : Environment) (now : Instant) : Preparation :=
  match c.state with
  | .starting | .started => ⟨c, [], .error (.alreadyStarted c.path.text)⟩
  | .stopped => ⟨c, [], .error (.noSuchContext c.path.text)⟩
  | .deployed | .failed _ =>
    match c.establish env with
    | .error e => ⟨c.markFailed e, [], .error e⟩
    | .ok base => c.prepareAt env now base

end Context

end Hosting
