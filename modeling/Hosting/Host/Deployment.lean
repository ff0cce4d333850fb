import Hosting.Host.Basic

/-! # Deploying and undeploying

    Deployment touches three tables: contexts, descriptors and, with a database, the stored
    deployments. Each of the small steps here changes one of them, and the operations are
    their sequences.

    - `deploy` registers a context first and stores it after; a failed store is an error,
      and the context stays registered;
    - `undeploy` removes the context first and the stored deployment after.
-/

namespace Hosting.Host

/-! ### Steps -/

/-- Puts a context into the table of contexts. -/
def insertContext (h : Host) (c : Context) : Host :=
  { h with contexts := h.contexts.insert c.path c }

/-- Keeps the descriptor of a path. -/
def insertDescriptor (h : Host) (path : ContextPath) (d : Descriptor) : Host :=
  { h with descriptors := h.descriptors.insert path d }

/-- Removes the context of a path. -/
def removeContext (h : Host) (path : ContextPath) : Host :=
  { h with contexts := h.contexts.erase path }

/-- Forgets the descriptor of a path. -/
def removeDescriptor (h : Host) (path : ContextPath) : Host :=
  { h with descriptors := h.descriptors.erase path }

/-- Runs a statement on the database, if there is one. -/
def onDatabase (h : Host) (f : Tables → Except Failure Tables) : Host × Except Failure Unit :=
  match h.database with
  | none => (h, .ok ())
  | some db =>
    match db.change f with
    | .error e => (h, .error e)
    | .ok db => ({ h with database := some db }, .ok ())

/-- Stores the deployment of a context that is registered under its path. -/
def storeDeployment (h : Host) (path : ContextPath) (d : Descriptor) :
    Host × Except Failure Unit :=
  match h.contexts.get? path with
  | none => (h, .ok ())
  | some c => h.onDatabase fun tables => tables.saveDeployment d c.id c.deployedAt

/-! ### Operations -/

/-- Makes a context for a descriptor and registers it under its path, if the path is free. -/
def register (h : Host) (d : Descriptor) : Host × Except HostError ContextPath :=
  match Context.ofDescriptor h.supply.id h.supply.now d with
  | .error e => (h.tick, .error e)
  | .ok c =>
    if h.contexts.contains c.path then (h.tick, .error (.duplicateContext c.path.text))
    else ((h.tick.insertContext c).insertDescriptor c.path d, .ok c.path)

/-- Registers an application and stores its deployment. -/
def deploy (h : Host) (d : Descriptor) : Host × Except Failure ContextPath :=
  match h.register d with
  | (h, .error e) => (h, .error (.host e))
  | (h, .ok path) =>
    match h.storeDeployment path d with
    | (h, .error e) => (h, .error e)
    | (h, .ok ()) => (h.record path "deployed" none, .ok path)

/-- Removes an application. The context is given back as it was, but stopped. -/
def undeploy (h : Host) (path : ContextPath) : Host × Except Failure Context :=
  match h.contexts.get? path with
  | none => (h, .error (.host (.noSuchContext path.text)))
  | some c =>
    match ((h.removeContext path).removeDescriptor path).onDatabase
        fun tables => tables.deleteDeployment path with
    | (h, .error e) => (h, .error e)
    | (h, .ok ()) => (h.record path "undeployed" none, .ok c.markStopped)

/-- Makes the call of a processor. -/
def perform (h : Host) : HostCall → Host
  | .deploy d => (h.deploy d).1
  | .undeploy path => (h.undeploy path).1

/-- Makes calls one after the other. -/
def performAll (h : Host) (calls : List HostCall) : Host :=
  calls.foldl perform h

/-! ### Restart -/

/-- The host for what a database holds: the stored settings, and a context for every stored
    deployment. Of two deployments that come to the same path the earlier one counts. -/
def restore (db : Database) (registry : ProcessorRegistry) (supply : Supply) :
    Except Failure Host :=
  match db.tables.loadSettings with
  | .error e => .error e
  | .ok settings =>
    match db.tables.loadDeployments with
    | .error e => .error e
    | .ok descriptors =>
      let h := ofSettings (settings.getD .default) registry supply
      .ok (descriptors.foldl (fun h d => (h.register d).1) { h with database := some db })

end Hosting.Host
