import Hosting.Classpath
import Hosting.ContextPath
import Hosting.Descriptor
import Hosting.Namespace

/-! # Configuration processors

    A processor is a step in the preparation of a context. It sees the machine, the path of
    the context and the rules for classpaths, and it may change the namespace, the search
    path and the attributes that the context will have. A processor may also call the host
    that runs it: such calls do not touch the context under preparation, so they are kept
    in order and made by the host.

    - `run` runs processors one after the other up to the first that fails;
    - `webInf` and `webXml` are built in.
-/

namespace Hosting

/-- Named texts that processors leave on a context. -/
structure Attributes where
  entries : List (String × String)
deriving DecidableEq, Repr

namespace Attributes

/-- No attributes. -/
def empty : Attributes := ⟨[]⟩

/-- The text of an attribute. -/
def get? (a : Attributes) (key : String) : Option String :=
  a.entries.lookup key

/-- Sets an attribute in place of what it was. -/
def insert (a : Attributes) (key text : String) : Attributes :=
  ⟨(key, text) :: a.entries.filter (·.1 ≠ key)⟩

end Attributes

/-- A call that a processor makes to the host. Its outcome is not looked at. -/
inductive HostCall where
  | deploy (descriptor : Descriptor)
  | undeploy (path : ContextPath)
deriving DecidableEq, Repr

/-- What a processor can see and not change. -/
structure SetupView where
  machine : Machine
  contextPath : ContextPath
  classpath : Classpath

/-- What a processor can change. -/
structure Setup where
  resources : Namespace
  libraries : LibrarySet
  attributes : Attributes
deriving DecidableEq, Repr

/-- What a processor has done when it returns. -/
structure Configured where
  setup : Setup
  calls : List HostCall
  failure : Option ProcessorError

/-- A step in the preparation of a context. -/
structure Processor where
  /-- The identifier it goes by in lists. -/
  name : String
  configure : SetupView → Setup → Configured

namespace Processor

/-- What a run of processors has done. -/
structure Run where
  setup : Setup
  calls : List HostCall
  /-- The name of the processor that failed, and why. -/
  failure : Option (String × ProcessorError)

/-- Runs processors in order, each on what the one before it left, up to the first failure. -/
def run (view : SetupView) : List Processor → Setup → Run
  | [], setup => ⟨setup, [], none⟩
  | p :: rest, setup =>
    let done := p.configure view setup
    match done.failure with
    | some e => ⟨done.setup, done.calls, some (p.name, e)⟩
    | none =>
      let after := run view rest done.setup
      { after with calls := done.calls ++ after.calls }

/-! ### Built-in processors -/

/-- The setup as it is after a processor that only succeeds. -/
def succeed (setup : Setup) : Configured := ⟨setup, [], none⟩

/-- The attribute that names the deployment descriptor of an application. -/
def descriptorAttribute : String := "apphost.descriptor"

/-- Adds the archives in `/WEB-INF/lib/` to the search path. -/
def addLib (view : SetupView) (setup : Setup) : Setup :=
  match setup.resources.resolve view.machine "/WEB-INF/lib/" .inside with
  | some ⟨_, path, .directory⟩ =>
    { setup with
      libraries := setup.libraries.pushAll (view.classpath.expand view.machine path) }
  | _ => setup

/-- Puts `/WEB-INF/classes/` and the archives in `/WEB-INF/lib/` on the search path. -/
def webInf : Processor where
  name := "webinf"
  configure view setup :=
    match setup.resources.resolve view.machine "/WEB-INF/classes/" .inside with
    | some ⟨_, path, .directory⟩ =>
      match view.machine.canonical path with
      | .error e => ⟨setup, [], some (.read path e)⟩
      | .ok place =>
        succeed (addLib view
          { setup with libraries := setup.libraries.push ⟨place, .directory⟩ })
    | _ => succeed (addLib view setup)

/-- Records where `/WEB-INF/web.xml` is found, which must not be a directory. -/
def webXml : Processor where
  name := "webxml"
  configure view setup :=
    match setup.resources.resolve view.machine "/WEB-INF/web.xml" .inside with
    | none => succeed setup
    | some ⟨_, path, .directory⟩ =>
      ⟨setup, [], some (.invalid (path.text ++ " is a directory"))⟩
    | some ⟨_, path, .file⟩ =>
      succeed { setup with attributes := setup.attributes.insert descriptorAttribute path.text }

end Processor

end Hosting
