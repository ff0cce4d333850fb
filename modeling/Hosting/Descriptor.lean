import Hosting.Json.Reader

/-! # Deployment descriptors

    What the host knows of an application before it is prepared. A descriptor is stored and
    exported as JSON text; only the context path and the resource base have to be given.
-/

namespace Hosting

/-- The inputs for one application. -/
structure Descriptor where
  /-- The path prefix the application is mounted at, in any spelling. -/
  contextPath : String
  /-- Empty for the context path itself. -/
  displayName : String
  /-- Directory, archive or `file:` reference behind the virtual root. -/
  resourceBase : String
  extraClasspath : Option String
  /-- Further virtual routes. -/
  aliases : List (String × String)
  /-- The paths the application may look up; all of them if not given. -/
  whiteList : Option (List String)
  /-- The processors to prepare the application with; the host's choice if empty. -/
  processors : List String
  /-- The host's copy of a name comes before the application's own. -/
  parentFirst : Bool
  systemNames : List String
  serverNames : List String
deriving DecidableEq, Repr

namespace Descriptor

/-- A descriptor with nothing but what has to be given. -/
def ofBase (contextPath resourceBase : String) : Descriptor where
  contextPath := contextPath
  displayName := ""
  resourceBase := resourceBase
  extraClasspath := none
  aliases := []
  whiteList := none
  processors := []
  parentFirst := false
  systemNames := []
  serverNames := []

/-- The descriptor with one more route. -/
def withAlias (d : Descriptor) (source target : String) : Descriptor :=
  { d with aliases := d.aliases ++ [(source, target)] }

/-- An alias as it stands in a JSON text. -/
def pairJson (pair : String × String) : Json :=
  Json.texts [pair.1, pair.2]

/-- A descriptor as it stands in a JSON text. -/
def json (d : Descriptor) : Json :=
  .object
    [("context_path", .text d.contextPath),
     ("display_name", .text d.displayName),
     ("resource_base", .text d.resourceBase),
     ("extra_classpath", Json.optional Json.text d.extraClasspath),
     ("aliases", .array (d.aliases.map pairJson)),
     ("white_list", Json.optional Json.texts d.whiteList),
     ("configuration_classes", Json.texts d.processors),
     ("parent_loader_priority", .bool d.parentFirst),
     ("system_classes", Json.texts d.systemNames),
     ("server_classes", Json.texts d.serverNames)]

/-- The members of a descriptor, in the order of their positions. -/
def fields : List (Json.Field Descriptor) :=
  [Json.requiredField "context_path" Json.readText fun d v => { d with contextPath := v },
   Json.field "display_name" Json.readText fun d v => { d with displayName := v },
   Json.requiredField "resource_base" Json.readText fun d v => { d with resourceBase := v },
   Json.field "extra_classpath" (Json.readOption Json.readText) fun d v =>
     { d with extraClasspath := v },
   Json.field "aliases" (Json.readList (Json.readPair Json.readText Json.readText)) fun d v =>
     { d with aliases := v },
   Json.field "white_list" (Json.readOption (Json.readList Json.readText)) fun d v =>
     { d with whiteList := v },
   Json.field "configuration_classes" (Json.readList Json.readText) fun d v =>
     { d with processors := v },
   Json.field "parent_loader_priority" Json.readBool fun d v => { d with parentFirst := v },
   Json.field "system_classes" (Json.readList Json.readText) fun d v => { d with systemNames := v },
   Json.field "server_classes" (Json.readList Json.readText) fun d v =>
     { d with serverNames := v }]

/-- Reads a descriptor. -/
def reader : Reader Descriptor := Json.record fields (ofBase "" "")

/-- The descriptor that a text holds. -/
def ofText (text : String) : Except Json.Fault Descriptor :=
  Json.readAll reader text

/-- The text to export. -/
def toPrettyText (d : Descriptor) : String :=
  d.json.toPrettyText

/-- The text to store. -/
def toText (d : Descriptor) : String :=
  d.json.toText

end Descriptor

end Hosting
