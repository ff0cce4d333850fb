import Hosting.Processor.Basic

/-! # Which processors prepare a context

    Processors go by identifiers, which a registry turns into processors. The list for a
    context comes whole from one source, the first that is not empty: processors given to
    the context, identifiers given to it, the host's own list, and the built-in list.

    - `ProcessorList.choose` makes the choice; an identifier without a processor stays in
      the list and is passed over when the list is run.
-/

namespace Hosting

/-- Processors by identifier. -/
structure ProcessorRegistry where
  entries : List (String × Processor)

namespace ProcessorRegistry

/-- No processors. -/
def empty : ProcessorRegistry := ⟨[]⟩

/-- Sets the processor for an identifier. -/
def register (r : ProcessorRegistry) (identifier : String) (p : Processor) : ProcessorRegistry :=
  ⟨(identifier, p) :: r.entries.filter (·.1 ≠ identifier)⟩

/-- The processor for an identifier. -/
def create (r : ProcessorRegistry) (identifier : String) : Option Processor :=
  r.entries.lookup identifier

/-- The identifier has a processor. -/
def contains (r : ProcessorRegistry) (identifier : String) : Bool :=
  (r.create identifier).isSome

/-- The identifiers in order. -/
def identifiers (r : ProcessorRegistry) : List String :=
  (r.entries.map (·.1)).mergeSort

/-- The built-in processors. -/
def default : ProcessorRegistry :=
  (empty.register "webinf" Processor.webInf).register "webxml" Processor.webXml

end ProcessorRegistry

/-- Where a processor list came from. -/
inductive ProcessorSource where
  | instances
  | identifiers
  | hostList
  | builtin
deriving DecidableEq, Repr

namespace ProcessorSource

/-- The stored name of a source. -/
def name : ProcessorSource → String
  | .instances => "ExplicitInstances"
  | .identifiers => "ExplicitClassNames"
  | .hostList => "HostAttribute"
  | .builtin => "Defaults"

/-- The name of a source for people. -/
def label : ProcessorSource → String
  | .instances => "explicit instances"
  | .identifiers => "explicit identifiers"
  | .hostList => "host attribute"
  | .builtin => "defaults"

/-- Reads a source. -/
def reader : Reader ProcessorSource :=
  Json.choice
    [("ExplicitInstances", .plain .instances), ("ExplicitClassNames", .plain .identifiers),
     ("HostAttribute", .plain .hostList), ("Defaults", .plain .builtin)]

end ProcessorSource

/-- The processors of a context, as its source lists them. -/
structure ProcessorList where
  source : ProcessorSource
  identifiers : List String
  /-- Those of the identifiers that have a processor, in order. -/
  processors : List Processor

namespace ProcessorList

/-- The list for identifiers from `source`. -/
def ofIdentifiers (registry : ProcessorRegistry) (source : ProcessorSource)
    (identifiers : List String) : ProcessorList :=
  ⟨source, identifiers, identifiers.filterMap registry.create⟩

/-- The list from the first source that is not empty. -/
def choose (registry : ProcessorRegistry) (instances : List Processor)
    (identifiers : List String) (hostList : Option (List String)) (builtin : List String) :
    ProcessorList :=
  if !instances.isEmpty then ⟨.instances, instances.map (·.name), instances⟩
  else if !identifiers.isEmpty then ofIdentifiers registry .identifiers identifiers
  else
    match hostList with
    | some (first :: rest) => ofIdentifiers registry .hostList (first :: rest)
    | _ => ofIdentifiers registry .builtin builtin

end ProcessorList

end Hosting
