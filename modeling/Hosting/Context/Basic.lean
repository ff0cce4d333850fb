import Hosting.Context.State
import Hosting.DeploymentId
import Hosting.Instant
import Hosting.Processor.Choice
import Hosting.Settings
import Hosting.WhiteList

/-! # Application contexts

    The scope of one hosted application: its virtual paths, its processors, its search path
    and its white list. A context is changed freely until it is started, and what it is
    prepared with is then what it keeps.

    - `ofDescriptor` makes a context from what was deployed;
    - the setters refuse a context that is started;
    - `products?` is what a started context was prepared with.
-/

namespace Hosting

/-- The scope of one application. -/
structure Context where
  id : DeploymentId
  path : ContextPath
  displayName : String
  state : ContextState
  resourceBase : String
  resources : Namespace
  /-- Processors given to this context. -/
  instances : List Processor
  /-- Processor identifiers given to this context. -/
  identifiers : List String
  /-- The processors it was prepared with. -/
  processors : Option ProcessorList
  extraClasspath : Option String
  libraries : LibrarySet
  parentFirst : Bool
  systemNames : List String
  serverNames : List String
  whiteList : WhiteList
  attributes : Attributes
  deployedAt : Instant
  startedAt : Option Instant

namespace Context

/-- A context that only knows its base. -/
def ofBase (id : DeploymentId) (now : Instant) (path : ContextPath) (resourceBase : String) :
    Context where
  id := id
  path := path
  displayName := path.text
  state := .deployed
  resourceBase := resourceBase
  resources := .ofTargets .default
  instances := []
  identifiers := []
  processors := none
  extraClasspath := none
  libraries := .empty
  parentFirst := false
  systemNames := []
  serverNames := []
  whiteList := .unset
  attributes := .empty
  deployedAt := now
  startedAt := none

/-- The context for a descriptor. -/
def ofDescriptor (id : DeploymentId) (now : Instant) (d : Descriptor) :
    Except HostError Context :=
  match ContextPath.parse d.contextPath with
  | .error e => .error e
  | .ok path =>
    let c := ofBase id now path d.resourceBase
    .ok { c with
      displayName := if d.displayName = "" then path.text else d.displayName
      resources := c.resources.registerAliases d.aliases
      identifiers := d.processors
      extraClasspath := d.extraClasspath
      parentFirst := d.parentFirst
      systemNames := d.systemNames
      serverNames := d.serverNames
      whiteList := .ofOption d.whiteList }

/-- What a started context was prepared with. -/
def products? (c : Context) : Option (ProcessorList × LibrarySet × Namespace) :=
  if c.state.isAvailable then c.processors.map fun list => (list, c.libraries, c.resources)
  else none

/-- Refuses a context that is being started or is started. -/
def checkMutable (c : Context) : Except HostError Unit :=
  match c.state with
  | .starting | .started => .error (.alreadyStarted c.path.text)
  | _ => .ok ()

/-! ### Setters -/

/-- Changes a context that is not started. -/
def change (c : Context) (f : Context → Context) : Except HostError Context :=
  c.checkMutable.map fun _ => f c

/-- Sets the processors of the context. -/
def setInstances (c : Context) (instances : List Processor) : Except HostError Context :=
  c.change fun c => { c with instances }

/-- Sets the processor identifiers of the context. -/
def setIdentifiers (c : Context) (identifiers : List String) : Except HostError Context :=
  c.change fun c => { c with identifiers }

/-- Sets the classpath beside the application's own libraries. -/
def setExtraClasspath (c : Context) (classpath : String) : Except HostError Context :=
  c.change fun c => { c with extraClasspath := some classpath }

/-- Sets the white list. -/
def setWhiteList (c : Context) (whiteList : WhiteList) : Except HostError Context :=
  c.change fun c => { c with whiteList }

/-- Adds a virtual route. -/
def registerAlias (c : Context) (source target : String) : Except HostError Context :=
  c.change fun c => { c with resources := c.resources.registerAlias source target }

/-- The context after it was undeployed. -/
def markStopped (c : Context) : Context :=
  { c with state := .stopped }

/-! ### Resources -/

/-- What a virtual path leads to. -/
def resource (m : Machine) (c : Context) (path : String) (caller : Caller) : Option Resource :=
  c.resources.resolve m path caller

/-- The file path that a virtual path stands for. -/
def realPath (c : Context) (path : String) : Option FilePath :=
  c.resources.realPath path

/-- The path is protected from callers outside. -/
def isProtectedTarget (c : Context) (path : String) : Bool :=
  c.resources.isProtected path

end Context

end Hosting
