import Hosting.ContextPath
import Hosting.Proofs.Text.Trimming

/-! # Context paths read back

    Trimming takes blanks from both ends of a text and slashes from its right end. A canonical
    spelling has none of these to give: it has no blanks, and no slash at its end unless it is
    the root. So it is read as it stands.

    - `ContextPath.startsSegment_iff`: where a path can be cut.
    - `ContextPath.parse_text`: the spelling of a context path is read as that path.
-/

namespace Hosting

namespace ContextPath

open Text

theorem startsSegment_iff {cs : List Char} :
    startsSegment cs = true ↔ cs = [] ∨ ∃ rest, cs = '/' :: rest := by
  cases cs <;> simp [startsSegment]

/-! ### Canonical spellings -/

/-- What a canonical spelling is, other than the root. -/
theorem canonical_cases {cs : List Char} (h : isCanonicalContext cs = true) :
    cs = ['/'] ∨
      (∃ rest, cs = '/' :: rest) ∧ (∀ c, cs.getLast? = some c → (c == '/') = false) ∧
        ∀ c ∈ cs, isBlank c = false := by
  simp only [isCanonicalContext, Bool.or_eq_true, Bool.and_eq_true, beq_iff_eq, bne_iff_ne, ne_eq,
    List.all_eq_true, Bool.not_eq_eq_eq_not, Bool.not_true] at h
  rcases h with hroot | ⟨⟨⟨hhead, hlast⟩, -⟩, hall⟩
  · exact .inl hroot
  · refine .inr ⟨?_, ?_, fun c hc => (hall c hc).2⟩
    · cases cs with
      | nil => cases hhead
      | cons c rest =>
        obtain rfl := Option.some.inj hhead
        exact ⟨rest, rfl⟩
    · intro c hc
      apply beq_eq_false_iff_ne.2
      rintro rfl
      exact hlast hc

theorem respelled_canonical {cs : List Char} (h : isCanonicalContext cs = true) :
    respelled cs = cs := by
  rcases canonical_cases h with rfl | ⟨⟨rest, rfl⟩, hlast, hblank⟩
  · rfl
  · unfold respelled
    rw [strip_of_not hblank, dropEnd_of_getLast hlast]
    rfl

/-- A context path is read from its own spelling. -/
theorem parse_text (p : ContextPath) : parse p.text = .ok p := by
  have hsame := respelled_canonical p.canonical
  have hcanonical : isCanonicalContext (respelled p.text.toList) = true := by
    rw [hsame]
    exact p.canonical
  unfold parse
  rw [dif_pos hcanonical]
  apply congrArg Except.ok
  apply ext_text
  show String.ofList (respelled p.text.toList) = p.text
  rw [hsame, String.ofList_toList]

end ContextPath

end Hosting
