import Hosting.Host.Basic

/-! # Looking up applications

    A request path belongs to the started context with the longest path that owns it.

    - `findContext` finds it;
    - `getContext` is the lookup from inside another application, which its white list may
      deny: denied and missing look the same;
    - `serve` finds the resource for a request from outside.
-/

namespace Hosting.Host

/-- The last of the contexts with the longest path. -/
def longest : List Context → Option Context
  | [] => none
  | c :: rest =>
    match longest rest with
    | none => some c
    | some d => if d.path.text.utf8ByteSize < c.path.text.utf8ByteSize then some c else some d

/-- The started context that a request path belongs to. -/
def findContext (h : Host) (uri : String) : Option Context :=
  longest (h.contexts.values.filter fun c => c.state.isAvailable && c.path.owns uri)

/-- Looks up the context for a path on behalf of the application at `requesting`. -/
def getContext (h : Host) (requesting : ContextPath) (uri : String) : Option Context :=
  match h.contexts.get? requesting, h.findContext uri with
  | some requester, some target =>
    if target.path = requester.path || requester.whiteList.permits requesting.text uri then
      some target
    else none
  | _, _ => none

/-- The part of a request path inside the context that owns it. -/
def innerPath (c : Context) (uri : String) : String :=
  if c.path.isRoot then uri
  else .ofList ((ContextPath.remainder? c.path.text.toList uri.toList).getD [])

/-- What a request from outside is answered with. -/
def serve (h : Host) (m : Machine) (uri : String) : Option Resource :=
  match h.findContext uri with
  | none => none
  | some c => c.resource m (innerPath c uri) .outside

end Hosting.Host
