import Hosting.Proofs.Host.Refusals
import Hosting.Proofs.Json.RoundTrips
import Hosting.Proofs.Path.ContextSpellings

/-! # Context paths as keys

    Everything that the host keeps about an application is kept under its context path: the
    context in memory, the stored deployment, and the events. The path is given as a text, by
    descriptors and in JSON, and all of these places read it in the same way.

    - `Json.readAll_parsed`: a JSON text of a checked text.
    - `Identifies`: a spelling stands for this path in every table.
    - `spellings_of_paths`: which spellings are accepted, and which of them are told apart.
-/

namespace Hosting

/-- A text that is checked is read from its JSON text as it would be read by itself. -/
theorem Json.readAll_parsed {α : Type} (f : String → Option α) (s : String) :
    (Json.readAll (Json.readParsed f) (Json.text s).toText).toOption = f s := by
  rw [toText_eq, readAll_document (means_parsed f).regular, (means_parsed f).meaning_eq]
  show (Piece.string? (Piece.ofText s)).bind f = f s
  rw [Piece.string?_ofText, Option.bind_some]

namespace Host

variable {h : Host} {d : Descriptor} {p : ContextPath}

/-- A deployment registers its path and no other, unless the path is registered already. That the
    database may fail makes no difference. -/
theorem contains_deploy_iff (hparse : ContextPath.parse d.contextPath = .ok p) (q : ContextPath) :
    (h.deploy d).1.contexts.contains q = true ↔ q = p ∨ h.contexts.contains q = true := by
  have hregister : (h.deploy d).1.contexts = (h.register d).1.contexts := by
    rcases deploy_parts h d with hparts | ⟨path, hparts | hparts⟩
    · rw [hparts]
    · rw [hparts, contexts_storeDeployment]
    · rw [hparts, contexts_record, contexts_storeDeployment]
  rw [hregister]
  rcases register_spec h d with ⟨e, he, -⟩ | ⟨path, hpath, htaken, hr⟩ | ⟨c, hc, -, hr⟩
  · rw [hparse] at he
    cases he
  · rw [hparse] at hpath
    obtain rfl := Except.ok.inj hpath
    rw [hr]
    show h.contexts.contains q = true ↔ _
    constructor
    · intro hq
      exact .inr hq
    · intro hq
      rcases hq with hq | hq
      · rw [hq]
        exact htaken
      · exact hq
  · have hpath := (Context.ofDescriptor_spec hc).1
    rw [hparse] at hpath
    obtain rfl := Except.ok.inj hpath
    rw [hr]
    show (h.contexts.insert c.path c).contains q = true ↔ _
    unfold PathTable.contains
    rw [PathTable.get?_insert]
    by_cases hq : q = c.path
    · rw [if_pos hq]
      exact iff_of_true rfl (.inl hq)
    · rw [if_neg hq, or_iff_right hq]

/-- A deployment is refused as a duplicate exactly where its path is registered. -/
theorem deploy_duplicate_iff (hparse : ContextPath.parse d.contextPath = .ok p) :
    (h.deploy d).2 = .error (.host (.duplicateContext p.text)) ↔
      h.contexts.contains p = true := by
  have hanswer := answer_register h d
  rw [hparse] at hanswer
  simp only at hanswer
  constructor
  · intro herror
    by_cases htaken : h.contexts.contains p = true
    · exact htaken
    · -- an error of the host leaves the contexts as they are, and a new path is among them
      rcases deploy_error herror with ⟨cause, -, hsame⟩ | ⟨c, fault, -, -, hfault, -⟩
      · have hin := (contains_deploy_iff (h := h) hparse p).2 (.inl rfl)
        rw [hsame] at hin
        exact hin
      · cases hfault
  · intro htaken
    rw [if_pos htaken] at hanswer
    exact deploy_of_refused hanswer

end Host

namespace ContextPath

/-- Wherever the spelling is given, the path is what the host goes by. -/
structure Identifies (raw : String) (p : ContextPath) : Prop where
  /-- An application is refused as a duplicate if the path is taken, and for no other reason. -/
  duplicate_iff {d : Descriptor} : d.contextPath = raw → ∀ h : Host,
    (h.deploy d).2 = .error (.host (.duplicateContext p.text)) ↔ h.contexts.contains p = true
  /-- The path is taken from then on, and no other path. -/
  registered {d : Descriptor} : d.contextPath = raw → ∀ (h : Host) (q : ContextPath),
    (h.deploy d).1.contexts.contains q = true ↔ q = p ∨ h.contexts.contains q = true
  /-- The deployment is stored under the text of the path, in place of what was stored there. -/
  stored {d : Descriptor} : d.contextPath = raw →
    ∀ settings rows history (id : DeploymentId) (time : Instant), ∃ row : DeploymentRow,
      row.contextPath = p.text ∧
        Tables.saveDeployment ⟨settings, some rows, history⟩ d id time =
          .ok ⟨settings, some (rows.filter (·.contextPath ≠ p.text) ++ [row]), history⟩
  /-- The spelling is read as the path where it stands in a JSON text. -/
  read : Json.readAll reader (Json.text raw).toText = .ok p

theorem readAll_text_iff {raw : String} {p : ContextPath} :
    Json.readAll reader (Json.text raw).toText = .ok p ↔ parse raw = .ok p := by
  rw [← Json.toOption_eq_some_iff]
  unfold reader
  rw [Json.readAll_parsed]
  exact Json.toOption_eq_some_iff

theorem identifies_of_parse {raw : String} {p : ContextPath} (h : parse raw = .ok p) :
    Identifies raw p := by
  constructor
  · intro d hd host
    rw [← hd] at h
    exact Host.deploy_duplicate_iff h
  · intro d hd host q
    rw [← hd] at h
    exact Host.contains_deploy_iff h q
  · intro d hd settings rows history id time
    refine ⟨⟨p.text, id.text, d.toText, time.text⟩, rfl, ?_⟩
    unfold Tables.saveDeployment
    rw [hd, h]
    rfl
  · exact readAll_text_iff.2 h

/-- A spelling is refused exactly if a star, a blank or two slashes in a row are left between its
    ends, and the error says what was given. Any other is accepted as a path whose text is normal.
    A path is read from its own text and from its JSON texts as it is, and every normal text is
    the text of the path that it is read as. Two accepted spellings give one path exactly if they
    differ at their ends only, and that is what deployment, the database and JSON go by. -/
theorem spellings_of_paths (raw : String) :
    ((∃ e, parse raw = .error e) ↔ IsRefused raw) ∧
      (∀ e, parse raw = .error e → e = .invalidContextPath raw) ∧
      (∀ p, parse raw = .ok p → IsNormal p.text.toList ∧ parse p.text = .ok p ∧
        Json.readAll reader p.json.toText = .ok p ∧
        Json.readAll reader p.json.toPrettyText = .ok p ∧ Identifies raw p ∧
        ∀ raw' p', parse raw' = .ok p' →
          (p = p' ↔ DifferAtEnds raw raw') ∧ (p.text = p'.text ↔ DifferAtEnds raw raw')) ∧
      (∀ p, Json.readAll reader (Json.text raw).toText = .ok p ↔ parse raw = .ok p) ∧
      (IsNormal raw.toList → ∃ p, parse raw = .ok p ∧ p.text = raw) := by
  refine ⟨?_, ?_, ?_, fun p => readAll_text_iff, ?_⟩
  · constructor
    · intro ⟨e, he⟩
      by_contra hnot
      obtain ⟨p, hp⟩ := exists_parse_ok_iff.2 hnot
      rw [he] at hp
      cases hp
    · intro hrefused
      cases hparse : parse raw with
      | error e => exact ⟨e, rfl⟩
      | ok p => exact absurd hrefused (exists_parse_ok_iff.1 ⟨p, hparse⟩)
  · intro e he
    exact (parse_eq_error_iff.1 he).2
  · intro p hp
    obtain ⟨hcompact, hpretty⟩ := ContextPath.readsBack p trivial
    refine ⟨p.isNormal_text, parse_text p, hcompact, hpretty, identifies_of_parse hp, ?_⟩
    intro raw' p' hp'
    have hsame := eq_iff_differAtEnds hp hp'
    refine ⟨hsame, ?_⟩
    rw [← hsame]
    exact ⟨ext_text, congrArg ContextPath.text⟩
  · intro hnormal
    let p : ContextPath := ⟨raw, isCanonicalContext_iff.2 hnormal⟩
    exact ⟨p, parse_text p, rfl⟩

/-- One path in three spellings, and two texts that are refused. -/
theorem spellings_of_paths_shop :
    parse " shop/admin// " = .ok ⟨"/shop/admin", by decide⟩ ∧
      DifferAtEnds " shop/admin// " "\t/shop/admin" ∧
      ¬ DifferAtEnds " shop/admin// " "/" ∧ IsRefused "/shop /admin" ∧ IsRefused "//shop" := by
  let shop : ContextPath := ⟨"/shop/admin", by decide⟩
  have hshop : parse " shop/admin// " = .ok shop := by
    decide +kernel
  obtain ⟨-, -, hpaths, -⟩ := spellings_of_paths " shop/admin// "
  obtain ⟨-, -, -, -, -, hdiffer⟩ := hpaths shop hshop
  have hblank : parse "/shop /admin" = .error (.invalidContextPath "/shop /admin") := by
    decide +kernel
  have hslashes : parse "//shop" = .error (.invalidContextPath "//shop") := by
    decide +kernel
  refine ⟨hshop, (hdiffer "\t/shop/admin" shop (by decide +kernel)).1.1 rfl, ?_,
    (spellings_of_paths "/shop /admin").1.1 ⟨_, hblank⟩,
    (spellings_of_paths "//shop").1.1 ⟨_, hslashes⟩⟩
  intro h
  have hroot := (hdiffer "/" root (by decide +kernel)).1.2 h
  exact absurd hroot (by decide)

end ContextPath

end Hosting
