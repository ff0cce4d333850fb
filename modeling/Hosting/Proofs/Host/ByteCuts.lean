import Hosting.Proofs.Library.Tokens
import Hosting.Proofs.Lookup.AliasRoutes
import Hosting.Proofs.Lookup.Innermost
import Hosting.Proofs.Lookup.Serving
import Hosting.Proofs.Path.ReservedNames

/-! # Cuts at byte offsets

    A request path is cut behind the path of its context, a protected target behind a slash and
    behind a reserved name, an aliased path at its slashes and a token behind its first byte, and
    a slash is put into the identifier of a library. Each of these offsets counts bytes. The
    readings below go by offsets, and nothing comes of one if a cut fails. No cut does, for any
    text and in any state of a host, so each reading tells what the reading by characters tells.

    - `withoutEndAt`, `locationAt`: tokens, and the identifiers of libraries.
    - `resolveAt`, `serveAt`: a request on its way through both checks of protected names and the
      search for an alias.
    - `cut?_of_findContext`: a request path can be cut behind the path of the context found for it.
    - `cuts_succeed`: all readings together.
-/

namespace Hosting

open Text

/-! ### Tokens and identifiers -/

namespace Text

/-- The text with a character put in at a byte offset. -/
def insert? (s : String) (offset : Nat) (ch : Char) : Option String :=
  (cut? s offset).map fun parts => parts.1 ++ .singleton ch ++ parts.2

theorem insert?_append (front back : String) (ch : Char) :
    insert? (front ++ back) front.utf8ByteSize ch = some (front ++ .singleton ch ++ back) := by
  unfold insert?
  rw [cut?_eq_some_iff.2 ⟨rfl, rfl⟩]
  rfl

end Text

namespace Classpath

/-- A token without the slashes at its end. Of nothing but slashes the first byte stays. -/
def withoutEndAt (token : String) : Option String :=
  let kept := dropEnd isSeparator token.toList
  if kept = [] ∧ token ≠ "" then (cut? token 1).map (·.1) else some (.ofList kept)

/-- Slashes of both directions take one byte, so a text can be cut behind one. -/
theorem cut?_of_isSeparator {ch : Char} (h : isSeparator ch = true) (rest : List Char) :
    cut? (.ofList (ch :: rest)) 1 = some (.ofList [ch], .ofList rest) := by
  have hsize : byteSize [ch] = 1 := by
    simp only [isSeparator, Bool.or_eq_true, beq_iff_eq] at h
    rcases h with rfl | rfl <;> rfl
  have hcut := cut?_append [ch] rest
  rwa [hsize, List.singleton_append] at hcut

theorem withoutEndAt_eq (token : String) :
    withoutEndAt token = some (.ofList (withoutEnd token.toList)) := by
  obtain ⟨cs, rfl⟩ := String.exists_eq_ofList token
  unfold withoutEndAt withoutEnd
  rw [String.toList_ofList]
  cases hkept : dropEnd isSeparator cs with
  | cons ch kept => rfl
  | nil =>
    cases cs with
    | nil => rfl
    | cons ch rest =>
      rw [dropEnd_eq_rdropWhile, List.rdropWhile_eq_nil_iff] at hkept
      have hch := hkept ch List.mem_cons_self
      have hne : String.ofList (ch :: rest) ≠ "" := by
        rw [Ne, ← String.toList_eq_nil_iff, String.toList_ofList]
        exact List.cons_ne_nil ch rest
      rw [if_pos ⟨rfl, hne⟩, cut?_of_isSeparator hch]
      rfl

end Classpath

namespace Library

/-- A path behind the scheme. Where the path does not begin with a slash, one is put in between. -/
def rootedAt (path : List Char) : Option String :=
  let opened := "file:" ++ String.ofList path
  if "file:/".toList <+: opened.toList then some opened else insert? opened 5 '/'

/-- The identifier of a library. -/
def locationAt (l : Library) : Option String :=
  let path := l.path.text.toList.map fun c => if c = '\\' then '/' else c
  (rootedAt path).map fun location =>
    if l.kind = .directory ∧ location.toList.getLast? ≠ some '/' then location.push '/'
    else location

variable {path : List Char}

theorem scheme_prefix_iff :
    "file:/".toList <+: ("file:" ++ String.ofList path).toList ↔ path.head? = some '/' := by
  have hscheme : "file:/".toList = "file:".toList ++ ['/'] := rfl
  rw [hscheme, String.toList_append, String.toList_ofList, List.prefix_append_right_inj]
  cases path with
  | nil => simp
  | cons ch rest => simp [eq_comm]

/-- The scheme has five bytes, so the slash comes between it and the path. -/
theorem rootedAt_eq (path : List Char) :
    rootedAt path =
      some ("file:" ++ .ofList (if path.head? = some '/' then path else '/' :: path)) := by
  unfold rootedAt
  by_cases hhead : path.head? = some '/'
  · rw [if_pos (scheme_prefix_iff.2 hhead), if_pos hhead]
  · have hinsert := insert?_append "file:" (.ofList path) '/'
    rw [String.append_assoc, ← String.ofList_cons] at hinsert
    rw [if_neg fun h => hhead (scheme_prefix_iff.1 h), if_neg hhead]
    exact hinsert

/-- Behind the scheme, a path ends as it does alone. -/
theorem getLast?_scheme (hne : path ≠ []) :
    ("file:" ++ String.ofList path).toList.getLast? = path.getLast? := by
  have hpath : (String.ofList path).toList ≠ [] := by rwa [String.toList_ofList]
  rw [String.toList_append, List.getLast?_append_of_ne_nil _ hpath, String.toList_ofList]

theorem locationAt_eq (l : Library) : l.locationAt = some l.location := by
  unfold locationAt location
  generalize (l.path.text.toList.map fun c => if c = '\\' then '/' else c) = path
  have hne : (if path.head? = some '/' then path else '/' :: path) ≠ [] := by
    split
    · next hhead => exact List.ne_nil_of_mem (List.mem_of_head? hhead)
    · exact List.cons_ne_nil _ _
  simp only [rootedAt_eq, Option.map_some, getLast?_scheme hne]
  generalize (if path.head? = some '/' then path else '/' :: path) = rooted
  by_cases hend : l.kind = .directory ∧ rooted.getLast? ≠ some '/'
  · rw [if_pos hend, if_pos hend, String.ofList_append, String.push_eq_append, String.append_assoc]
    rfl
  · rw [if_neg hend, if_neg hend]

end Library

/-! ### Requests -/

namespace Namespace

/-- The path is hidden from the caller. For one inside no name is compared. -/
def hidesAt (ns : Namespace) (caller : Caller) (normal : String) : Option Bool :=
  match caller with
  | .inside => some false
  | .outside => ns.reserved.isProtectedAt normal

/-- What a virtual path leads to, directly or by its alias route. -/
def resolveAt (m : Machine) (ns : Namespace) (path : String) (caller : Caller) :
    Option (Option Resource) :=
  match VirtualPath.normalize path with
  | none => some none
  | some normal => do
    if ← ns.hidesAt caller normal then return none
    match ns.locate m normal normal with
    | some found => return some found
    | none =>
      match (← aliasForAt ns.aliases normal).bind VirtualPath.normalize with
      | none => return none
      | some routed =>
        if ← ns.hidesAt caller routed then return none
        return ns.locate m normal routed

theorem hidesAt_eq (ns : Namespace) (caller : Caller) (normal : String) :
    ns.hidesAt caller normal = some (ns.hides caller normal) := by
  cases caller with
  | inside => rfl
  | outside => exact ProtectedTargets.isProtectedAt_eq ns.reserved normal

theorem resolveAt_eq (m : Machine) (ns : Namespace) (path : String) (caller : Caller) :
    ns.resolveAt m path caller = some (ns.resolve m path caller) := by
  unfold resolveAt resolve
  cases VirtualPath.normalize path with
  | none => rfl
  | some normal =>
    simp only [hidesAt_eq, aliasForAt_eq, Option.bind_eq_bind, Option.bind_some, Option.pure_def]
    cases ns.hides caller normal with
    | true => rfl
    | false =>
      cases ns.locate m normal normal with
      | some found => rfl
      | none =>
        cases (aliasFor ns.aliases normal).bind VirtualPath.normalize with
        | none => rfl
        | some routed => exact (apply_ite some (ns.hides caller routed = true) none _).symm

end Namespace

namespace Host

/-- The part of a request path behind as many bytes as the path of its context has. -/
def innerPathAt (c : Context) (uri : String) : Option String :=
  if c.path.isRoot then some uri else (cut? uri c.path.text.utf8ByteSize).map (·.2)

/-- What a request from outside is answered with. -/
def serveAt (h : Host) (m : Machine) (uri : String) : Option (Option Resource) :=
  match h.findContext uri with
  | none => some none
  | some c => do c.resources.resolveAt m (← innerPathAt c uri) .outside

variable {h : Host} {c : Context} {uri : String}

/-- The context that is found is the root, or the request path has its path before the cut and
    the part inside the context behind it. -/
theorem cut?_of_findContext (hc : h.findContext uri = some c) (hroot : c.path.isRoot = false) :
    cut? uri c.path.text.utf8ByteSize = some (c.path.text, innerPath c uri) := by
  obtain ⟨-, -, howns, -⟩ := findContext_spec hc
  rcases splits_innerPath howns with ⟨habs, -⟩ | ⟨-, huri, -⟩
  · rw [hroot] at habs
    cases habs
  · exact cut?_eq_some_iff.2 ⟨huri, rfl⟩

theorem innerPathAt_eq (hc : h.findContext uri = some c) :
    innerPathAt c uri = some (innerPath c uri) := by
  unfold innerPathAt
  cases hroot : c.path.isRoot with
  | true =>
    unfold innerPath
    rw [if_pos rfl, if_pos hroot]
  | false =>
    rw [cut?_of_findContext hc hroot]
    rfl

theorem serveAt_eq (h : Host) (m : Machine) (uri : String) :
    h.serveAt m uri = some (h.serve m uri) := by
  unfold serveAt serve
  cases hc : h.findContext uri with
  | none => rfl
  | some c =>
    simp only [innerPathAt_eq hc]
    exact Namespace.resolveAt_eq m c.resources (innerPath c uri) .outside

end Host

/-! ### All readings -/

/-- Every reading by byte offsets comes to what the reading by characters comes to, so no offset
    lies behind the end of a text or inside a character. A request path is cut behind the path of
    the context that is found for it, unless that is the root. -/
theorem cuts_succeed (h : Host) (m : Machine) (uri : String) (ns : Namespace) (path : String)
    (caller : Caller) (reserved : ProtectedTargets) (target : String)
    (aliases : List (String × String)) (normal token : String) (l : Library) :
    h.serveAt m uri = some (h.serve m uri) ∧
      (∀ c, h.findContext uri = some c → c.path.isRoot = false → ∃ rest,
        uri = c.path.text ++ rest ∧
          cut? uri c.path.text.utf8ByteSize = some (c.path.text, rest)) ∧
      ns.resolveAt m path caller = some (ns.resolve m path caller) ∧
      reserved.isProtectedAt target = some (reserved.isProtected target) ∧
      Namespace.aliasForAt aliases normal = some (Namespace.aliasFor aliases normal) ∧
      Classpath.withoutEndAt token = some (.ofList (Classpath.withoutEnd token.toList)) ∧
      l.locationAt = some l.location := by
  refine ⟨h.serveAt_eq m uri, fun c hc hroot => ?_, ns.resolveAt_eq m path caller,
    reserved.isProtectedAt_eq target, Namespace.aliasForAt_eq aliases normal,
    Classpath.withoutEndAt_eq token, l.locationAt_eq⟩
  have hcut := Host.cut?_of_findContext hc hroot
  exact ⟨_, (cut?_eq_some_iff.1 hcut).1, hcut⟩

/-- Paths with characters of two and three bytes. The reserved name would end inside of one, and
    the token has two slashes only. -/
theorem cuts_succeed_layered :
    (∃ c, Host.layered.findContext "/é/in/static/../static/a.txt" = some c ∧
      c.path.isRoot = false ∧ ∃ rest, "/é/in/static/../static/a.txt" = c.path.text ++ rest ∧
        cut? "/é/in/static/../static/a.txt" c.path.text.utf8ByteSize =
          some (c.path.text, rest)) ∧
      Host.layered.serveAt Sample.machine "/é/in/static/../static/a.txt" =
        some (some ⟨"/static/a.txt", ⟨"/srv/a/static/a.txt"⟩, .file⟩) ∧
      ProtectedTargets.default.isProtectedAt "//web-inñ" = some false ∧
      Classpath.withoutEndAt "\\/" = some "\\" ∧
      Library.locationAt ⟨⟨"→\\é"⟩, .directory⟩ = some "file:/→/é/" := by
  have hfound : (Host.layered.findContext "/é/in/static/../static/a.txt").map (·.path.text) =
      some "/é/in" := by
    decide +kernel
  obtain ⟨c, hc, htext⟩ := Option.map_eq_some_iff.1 hfound
  have hroot : c.path.isRoot = false := by
    unfold ContextPath.isRoot
    rw [htext]
    rfl
  obtain ⟨hserve, hcut, -, hprotected, -, htoken, hlocation⟩ := cuts_succeed Host.layered
    Sample.machine "/é/in/static/../static/a.txt" (.ofTargets .default) "/x" .outside .default
    "//web-inñ" [] "/x" "\\/" ⟨⟨"→\\é"⟩, .directory⟩
  have hresource : Host.layered.serve Sample.machine "/é/in/static/../static/a.txt" =
      some ⟨"/static/a.txt", ⟨"/srv/a/static/a.txt"⟩, .file⟩ := by
    decide +kernel
  have hplain : ProtectedTargets.default.isProtected "//web-inñ" = false := by
    decide +kernel
  rw [hserve, hresource, hprotected, hplain, htoken, hlocation]
  exact ⟨⟨c, hc, hroot, hcut c hc hroot⟩, rfl, rfl, by decide, by decide⟩

end Hosting
