import Hosting.Proofs.Lookup.Serving
import Hosting.Proofs.Path.Joined

/-! # Spellings of one request path

    The owner of a request is chosen on the path as it is spelled, and what is left of it is
    normalised only inside the owner. So a path and its normal spelling are looked up in the
    same place only where both have the same owner and the rest stays inside it.

    - `normalize_innerPath`: below one owner, the rest of a path and the rest of its normal
      spelling have the same normal spelling, unless the first climbs out of the owner.
    - `serve_spelling_iff`: when a path is answered like its normal spelling.
    - `serve_not_normalized`: a doubled slash leads past an application, to a file that the
      application hides.
-/

namespace Hosting

open Text VirtualPath

/-! ### Inside the owner -/

/-- A namespace looks at the normal spelling only. -/
theorem Namespace.resolve_of_normalize_eq {path path' : String} (m : Machine) (ns : Namespace)
    (caller : Caller) (h : normalize path = normalize path') :
    ns.resolve m path caller = ns.resolve m path' caller := by
  unfold resolve
  rw [h]

namespace Host

variable {h : Host} {m : Machine} {c : Context} {uri normal : String}

/-- What is left of a request path inside its owner does not climb out of it. -/
def StaysInside (c : Context) (uri : String) : Prop :=
  (normalize (innerPath c uri)).isSome = true

instance (c : Context) (uri : String) : Decidable (StaysInside c uri) :=
  inferInstanceAs (Decidable (_ = true))

theorem normalize_innerPath (hn : normalize uri = some normal) (howns : c.path.owns uri = true)
    (howns' : c.path.owns normal = true) (hinside : StaysInside c uri) :
    normalize (innerPath c uri) = normalize (innerPath c normal) := by
  have hfix := normalize_of_isNormal (isNormal_of_normalize hn)
  rcases splits_innerPath howns with ⟨hroot, hrest⟩ | ⟨hroot, huri, hseg⟩
  · rcases splits_innerPath howns' with ⟨-, hrest'⟩ | ⟨hnot, -⟩
    · rw [hrest, hrest', hn, hfix]
    · simp [hroot] at hnot
  · rcases splits_innerPath howns' with ⟨hnot, -⟩ | ⟨-, hnormal, hseg'⟩
    · simp [hroot] at hnot
    · unfold StaysInside VirtualPath.normalize at hinside
      unfold VirtualPath.normalize at hn ⊢
      obtain ⟨cs, hcs, hofList⟩ := Option.map_eq_some_iff.1 hn
      have hcsn : cs = normal.toList := by rw [← hofList, String.toList_ofList]
      rw [huri, String.toList_append] at hcs
      rw [hnormal, String.toList_append] at hcsn
      rcases normalizeChars_behind hcs hcsn hseg hseg' with hnone | heq
      · simp [hnone] at hinside
      · rw [heq]

/-- A rest that climbs out of the owner leads nowhere. -/
theorem serve_of_not_staysInside (hc : h.findContext uri = some c)
    (hout : ¬ StaysInside c uri) : h.serve m uri = none := by
  have hnone : normalize (innerPath c uri) = none := by
    simpa [StaysInside] using hout
  unfold serve
  rw [hc]
  simp only [Context.resource, Namespace.resolve, hnone]

theorem serve_of_staysInside (m : Machine) (hn : normalize uri = some normal)
    (hc : h.findContext uri = some c) (hc' : h.findContext normal = some c)
    (hinside : StaysInside c uri) : h.serve m uri = h.serve m normal := by
  obtain ⟨-, -, howns, -⟩ := findContext_spec hc
  obtain ⟨-, -, howns', -⟩ := findContext_spec hc'
  unfold serve
  rw [hc, hc']
  exact Namespace.resolve_of_normalize_eq m c.resources .outside
    (normalize_innerPath hn howns howns' hinside)

/-! ### Two spellings of one request -/

/-- Both answers are nothing, or the same file and the same kind. -/
def Alike (r s : Option Resource) : Prop :=
  r.map (fun r => (r.path, r.kind)) = s.map fun s => (s.path, s.kind)

instance (r s : Option Resource) : Decidable (Alike r s) :=
  inferInstanceAs (Decidable (_ = _))

theorem alike_none_iff {s : Option Resource} : Alike none s ↔ s = none := by
  cases s <;> simp [Alike]

/-- With one owner for both, a request path is answered like its normal spelling if its rest
    stays inside the owner. A rest that climbs out is not answered, so the two agree only
    where the normal spelling leads nowhere either. -/
theorem serve_spelling_iff (m : Machine) (hn : normalize uri = some normal)
    (howner : h.findContext uri = h.findContext normal) :
    Alike (h.serve m uri) (h.serve m normal) ↔
      (∀ c, h.findContext uri = some c → StaysInside c uri) ∨ h.serve m normal = none := by
  cases hc : h.findContext uri with
  | none =>
    have hnone {path : String} (hpath : h.findContext path = none) : h.serve m path = none := by
      unfold serve
      rw [hpath]
    rw [hnone hc, hnone (howner.symm.trans hc)]
    exact iff_of_true rfl (.inr rfl)
  | some c =>
    by_cases hinside : StaysInside c uri
    · rw [serve_of_staysInside m hn hc (howner.symm.trans hc) hinside]
      refine iff_of_true rfl (.inl fun d hd => ?_)
      rwa [← Option.some.inj hd]
    · rw [serve_of_not_staysInside hc hinside, alike_none_iff]
      refine ⟨.inr, fun hcond => hcond.resolve_left fun hall => ?_⟩
      exact hinside (hall c rfl)

/-- The path is not normal and its rest stays inside the owner, so it leads where its normal
    spelling leads. -/
theorem serve_spelling_iff_chained :
    normalize "/A/y/../x//a.txt" = some "/A/x/a.txt" ∧
      chained.findContext "/A/y/../x//a.txt" = chained.findContext "/A/x/a.txt" ∧
      (Alike (chained.serve Sample.machine "/A/y/../x//a.txt")
          (chained.serve Sample.machine "/A/x/a.txt") ↔
        (∀ c, chained.findContext "/A/y/../x//a.txt" = some c →
          StaysInside c "/A/y/../x//a.txt") ∨
          chained.serve Sample.machine "/A/x/a.txt" = none) := by
  have hn : normalize "/A/y/../x//a.txt" = some "/A/x/a.txt" := by
    decide +kernel
  have howner : chained.findContext "/A/y/../x//a.txt" = chained.findContext "/A/x/a.txt" := by
    rfl
  exact ⟨hn, howner, serve_spelling_iff Sample.machine hn howner⟩

/-! ### Past an application -/

/-- The small machine with an application inside the directory of another one. -/
def overlaidMachine : Machine :=
  Sample.machine.withFiles
    (((Sample.machine.files.put ["srv", "a", "in"] .directory).put
      ["srv", "a", "in", "WEB-INF"] .directory).put
      ["srv", "a", "in", "WEB-INF", "web.xml"] (.file (.text "x")))

/-- The outer application at the root and the inner one at `/in`, both started. -/
def overlaid : Host :=
  (((Sample.host.deploy (.ofBase "/" "a")).1.deploy (.ofBase "/in" "a/in")).1.startAll
    overlaidMachine).1

theorem reachable_overlaid : overlaid.Reachable :=
  ((Sample.reachable_host.step (.deploy _ _)).step (.deploy _ _)).step
    (step_startAll _ overlaidMachine)

/-- The inner application hides the file, and one slash more leads to it through the outer one. -/
theorem serve_overlaid :
    overlaid.serve overlaidMachine "/in/WEB-INF/web.xml" = none ∧
      (overlaid.findContext "/in/WEB-INF/web.xml").map (fun c =>
        (c.path.text, c.isProtectedTarget "/WEB-INF/web.xml")) = some ("/in", true) ∧
      overlaid.serve overlaidMachine "//in/WEB-INF/web.xml" =
        some ⟨"/in/WEB-INF/web.xml", ⟨"/srv/a/in/WEB-INF/web.xml"⟩, .file⟩ := by
  decide +kernel

/-- Not every path is answered like its normal spelling, and an application does not hide its
    files from those who spell its path differently. -/
theorem serve_not_normalized :
    ¬ ∀ (h : Host) (m : Machine) (uri normal : String), h.Reachable →
      normalize uri = some normal → Alike (h.serve m uri) (h.serve m normal) := by
  intro hall
  obtain ⟨hhidden, -, hshown⟩ := serve_overlaid
  have hn : normalize "//in/WEB-INF/web.xml" = some "/in/WEB-INF/web.xml" := by
    decide +kernel
  have halike := hall overlaid overlaidMachine _ _ reachable_overlaid hn
  rw [hhidden, hshown] at halike
  simp [Alike] at halike

end Host

end Hosting
