import Hosting.Host.Deployment

/-! # Starting applications

    A preparation reads a context from the table, works on a copy and puts the copy back.
    In between, the processors it runs may change the host. The copy is only put back while
    the table still holds the deployment that was read: `storePrepared` compares ids.

    - `prepare` does this for one context;
    - `startAll` does it for every context that is not started, and reports each outcome
      by path;
    - `redeploy` makes a new context from the stored descriptor and puts it in place of
      whatever is registered under the path by then.
-/

namespace Hosting.Host

/-- Puts a prepared copy in place of the context it was read from. Another deployment at its path
    is left alone. -/
def storePrepared (h : Host) (id : DeploymentId) (c : Context) : Host × Except Failure Unit :=
  let changed : Failure :=
    .conflict ("Context " ++ c.path.text ++ " changed while it was being prepared")
  match h.contexts.get? c.path with
  | none => (h, .error changed)
  | some current =>
    if current.id = id then (h.insertContext c, .ok ()) else (h, .error changed)

/-! ### One context -/

/-- The preparation of a context that was read from the table. -/
def preparationOf (h : Host) (m : Machine) (c : Context) : Preparation :=
  c.prepare (h.environment m) h.supply.now

/-- Ends a preparation: puts the copy back and writes how it went. A context that was started
    already is left as it is. -/
def finishPrepare (h : Host) (path : ContextPath) (id : DeploymentId) (prep : Preparation) :
    Host × Except Failure Unit :=
  match prep.outcome with
  | .error (.alreadyStarted context) =>
    (h, .error (.during ("Context " ++ path.text ++ " was not prepared")
      (.alreadyStarted context)))
  | outcome =>
    match h.storePrepared id prep.context with
    | (h, .error e) => (h, .error e)
    | (h, .ok ()) =>
      (h.recordStartup path outcome,
        Failure.withDoing ("Failed to prepare context " ++ path.text) outcome)

/-- Prepares the context registered under a path. -/
def prepare (h : Host) (m : Machine) (path : ContextPath) : Host × Except Failure Unit :=
  match h.contexts.get? path with
  | none => (h, .error (.host (.noSuchContext path.text)))
  | some c =>
    let prep := h.preparationOf m c
    (h.tick.performAll prep.calls).finishPrepare path c.id prep

/-! ### All contexts -/

/-- The contexts that a start of all prepares. -/
def pending (h : Host) : List Context :=
  h.contexts.values.filter fun c =>
    match c.state with
    | .deployed | .failed _ => true
    | _ => false

/-- How the preparation of one context has ended. -/
abbrev StartupResult := ContextPath × Except HostError Unit

/-- A preparation under way: the id of the context that was read, and what became of its copy. -/
structure StartupTask where
  id : DeploymentId
  preparation : Preparation

/-- The preparation of one context, apart from the host. -/
def startupTask (env : Environment) (now : Instant) (c : Context) : StartupTask :=
  ⟨c.id, c.prepare env now⟩

/-- Ends one preparation. A copy that is not put back any more is dropped. -/
def finishTask (h : Host) (task : StartupTask) : Host × StartupResult :=
  let prep := task.preparation
  let h := ((h.performAll prep.calls).storePrepared task.id prep.context).1
  (h.recordStartup prep.context.path prep.outcome, (prep.context.path, prep.outcome))

/-- Ends preparations in the order in which they are done. -/
def finishTasks : Host → List StartupTask → Host × List StartupResult
  | h, [] => (h, [])
  | h, task :: rest =>
    let (h, result) := h.finishTask task
    let (h, results) := finishTasks h rest
    (h, result :: results)

/-- Results by path. -/
def sortResults (results : List StartupResult) : List StartupResult :=
  results.mergeSort fun a b => a.1.text ≤ b.1.text

/-- Ends the preparations of a start of all, in the order in which they are done. -/
def finishStartup (h : Host) (tasks : List StartupTask) : Host × List StartupResult :=
  let (h, results) := h.finishTasks tasks
  (h, sortResults results)

/-- The preparations of a start of all, in the order of the paths. -/
def startupTasks (h : Host) (m : Machine) : List StartupTask :=
  h.pending.map (startupTask (h.environment m) h.supply.now)

/-- Prepares every context that is not started. -/
def startAll (h : Host) (m : Machine) : Host × List StartupResult :=
  h.tick.finishStartup (h.startupTasks m)

/-! ### Redeployment -/

/-- Ends a redeployment: puts the new context into the table, unless the path was undeployed. -/
def finishRedeploy (h : Host) (path : ContextPath) (prep : Preparation) :
    Host × Except Failure Unit :=
  if h.contexts.contains path then
    let h := { h with contexts := h.contexts.insert path prep.context }
    ((h.record path "redeployed" none).recordStartup path prep.outcome,
      Failure.withDoing ("Failed to redeploy context " ++ path.text) prep.outcome)
  else
    (h, .error (.conflict ("Context " ++ path.text ++ " was undeployed during redeploy")))

/-- Puts a new context, made from the stored descriptor and prepared, in place of the one at a
    path. -/
def redeploy (h : Host) (m : Machine) (path : ContextPath) : Host × Except Failure Unit :=
  match h.descriptors.get? path with
  | none => (h, .error (.host (.noSuchContext path.text)))
  | some d =>
    match Context.ofDescriptor h.supply.id h.supply.now d with
    | .error e => (h.tick, .error (.host e))
    | .ok c =>
      let prep := h.preparationOf m c
      (h.tick.performAll prep.calls).finishRedeploy path prep

end Hosting.Host
