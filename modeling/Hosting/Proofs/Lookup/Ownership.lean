import Hosting.Host.Lookup
import Hosting.Proofs.Path.ContextPaths

/-! # Which context owns a request path

    Ownership of request paths is a prefix order by whole segments, with the root at its
    top. Two contexts that own one request path are always comparable in it, so the one
    with the longest path is the innermost.

    - `Above`: one context path lies strictly above another.
    - `findContext_spec`: the context found is started, owns the path, and is the
      innermost of those that are and do.
    - `findContext_eq_none_iff`: none is found only where none owns the path.
-/

namespace Hosting

namespace ContextPath

/-! ### Canonical spellings -/

theorem head?_text (p : ContextPath) : p.text.toList.head? = some '/' := by
  have h := p.canonical
  unfold isCanonicalContext at h
  simp only [Bool.or_eq_true, beq_iff_eq, Bool.and_eq_true] at h
  rcases h with h | ⟨⟨⟨h, -⟩, -⟩, -⟩
  · rw [h]; rfl
  · exact h

theorem isRoot_iff {p : ContextPath} : p.isRoot = true ↔ p = root := by
  constructor
  · intro h
    apply ext_text
    show p.text = "/"
    simpa [isRoot] using h
  · rintro rfl
    rfl

theorem toList_text_ne_nil (p : ContextPath) : p.text.toList ≠ [] := by
  intro h
  have := p.head?_text
  rw [h] at this
  simp at this

/-- A path other than the root goes on after its first slash. -/
theorem exists_text_eq {p : ContextPath} (h : p.isRoot = false) :
    ∃ c cs, p.text.toList = '/' :: c :: cs := by
  have hhead := p.head?_text
  match hp : p.text.toList with
  | [] => exact absurd hp p.toList_text_ne_nil
  | [c] =>
    rw [hp] at hhead
    have hroot : p.text = "/" := by
      rw [← String.toList_inj, hp]
      simpa using hhead
    simp [isRoot, hroot] at h
  | c :: d :: cs =>
    rw [hp] at hhead
    simp only [List.head?_cons, Option.some.injEq] at hhead
    exact ⟨d, cs, by rw [hhead]⟩

/-! ### Ownership as a prefix -/

theorem remainder?_eq_some_iff {start cs rest : List Char} :
    remainder? start cs = some rest ↔ cs = start ++ rest := by
  induction start generalizing cs with
  | nil => simp [remainder?, eq_comm]
  | cons s start ih =>
    cases cs with
    | nil => simp [remainder?]
    | cons c cs =>
      by_cases hc : c = s
      · simp [remainder?, hc, ih]
      · simp [remainder?, hc]

theorem owns_iff {p : ContextPath} {uri : String} :
    p.owns uri = true ↔
      p.isRoot = true ∨
        ∃ rest, uri.toList = p.text.toList ++ rest ∧ startsSegment rest = true := by
  unfold owns
  rw [Bool.or_eq_true]
  refine or_congr_right ?_
  -- the remainder is the only list that can stand for `rest`
  cases hr : remainder? p.text.toList uri.toList with
  | none =>
    simp only [Bool.false_eq_true, false_iff]
    rintro ⟨rest, hrest, -⟩
    rw [remainder?_eq_some_iff.2 hrest] at hr
    simp at hr
  | some rest =>
    have huri := remainder?_eq_some_iff.1 hr
    constructor
    · exact fun h => ⟨rest, huri, h⟩
    · rintro ⟨rest', hrest', h⟩
      obtain rfl : rest' = rest := List.append_cancel_left (hrest' ▸ huri)
      exact h

theorem owns_root (uri : String) : root.owns uri = true :=
  owns_iff.2 (.inl rfl)

theorem owns_text_self (p : ContextPath) : p.owns p.text = true :=
  owns_iff.2 (.inr ⟨[], by simp, rfl⟩)

/-- Going on below a path stays inside the context. -/
theorem owns_append_slash (p : ContextPath) (name : String) :
    p.owns (p.text ++ "/" ++ name) = true :=
  owns_iff.2 (.inr ⟨'/' :: name.toList, by simp [show "/".toList = ['/'] from rfl], rfl⟩)

/-- Only the root owns its own path. -/
theorem isRoot_of_owns_root {p : ContextPath} (h : p.owns root.text = true) :
    p.isRoot = true := by
  rcases owns_iff.1 h with h | ⟨rest, hrest, -⟩
  · exact h
  · cases hp : p.isRoot with
    | true => rfl
    | false =>
      obtain ⟨c, cs, hcs⟩ := exists_text_eq hp
      rw [hcs, show root.text.toList = ['/'] from rfl] at hrest
      simp at hrest

theorem owns_trans {p q : ContextPath} {uri : String} (hpq : p.owns q.text = true)
    (hq : q.owns uri = true) : p.owns uri = true := by
  rcases owns_iff.1 hq with hroot | ⟨rest, hrest, hseg⟩
  · rw [isRoot_iff] at hroot
    subst hroot
    exact owns_iff.2 (.inl (isRoot_of_owns_root hpq))
  · rcases owns_iff.1 hpq with hp | ⟨rest', hrest', hseg'⟩
    · exact owns_iff.2 (.inl hp)
    · refine owns_iff.2 (.inr ⟨rest' ++ rest, by rw [hrest, hrest', List.append_assoc], ?_⟩)
      rcases startsSegment_iff.1 hseg' with rfl | ⟨more, rfl⟩
      · exact hseg
      · rfl

/-! ### Above and below -/

/-- `p` lies strictly above `q`: it owns the path of `q` and is another context path. -/
def Above (p q : ContextPath) : Prop :=
  p ≠ q ∧ p.owns q.text = true

instance (p q : ContextPath) : Decidable (p.Above q) :=
  inferInstanceAs (Decidable (_ ∧ _))

theorem size_of_toList_append {s t : String} {rest : List Char}
    (h : t.toList = s.toList ++ rest) :
    t.utf8ByteSize = s.utf8ByteSize + (String.ofList rest).utf8ByteSize := by
  have ht : t = s ++ String.ofList rest := by
    rw [← String.toList_inj]
    simp [h]
  rw [ht, String.utf8ByteSize_append]

/-- Going down makes a path longer. -/
theorem size_lt_of_above {p q : ContextPath} (h : p.Above q) :
    p.text.utf8ByteSize < q.text.utf8ByteSize := by
  obtain ⟨hne, howns⟩ := h
  -- the lower path goes on after the upper one, also after the root
  have hprefix : ∃ rest, rest ≠ [] ∧ q.text.toList = p.text.toList ++ rest := by
    rcases owns_iff.1 howns with hroot | ⟨rest, hrest, -⟩
    · rw [isRoot_iff] at hroot
      subst hroot
      have hq : q.isRoot = false := by
        cases hq : q.isRoot with
        | true => exact absurd (isRoot_iff.1 hq).symm hne
        | false => rfl
      obtain ⟨c, cs, hcs⟩ := exists_text_eq hq
      exact ⟨c :: cs, by simp, by rw [hcs]; rfl⟩
    · refine ⟨rest, ?_, hrest⟩
      rintro rfl
      refine hne (ext_text (String.toList_inj.1 ?_))
      rw [hrest, List.append_nil]
  obtain ⟨rest, hrest, hq⟩ := hprefix
  rw [size_of_toList_append hq]
  have hpos : (String.ofList rest).utf8ByteSize ≠ 0 := by
    intro h
    apply hrest
    have := congrArg String.toList (String.utf8ByteSize_eq_zero_iff.1 h)
    simpa using this
  omega

theorem not_above_of_above {p q : ContextPath} (h : p.Above q) : ¬ q.Above p := by
  intro h'
  have h₁ := size_lt_of_above h
  have h₂ := size_lt_of_above h'
  omega

/-- Of two owners of one request path, the one with the shorter path owns the other. -/
theorem owns_text_of_size_le {p q : ContextPath} {uri : String} (hp : p.owns uri = true)
    (hq : q.owns uri = true) (hle : p.text.utf8ByteSize ≤ q.text.utf8ByteSize) :
    p.owns q.text = true := by
  rcases owns_iff.1 hp with hroot | ⟨rest, hrest, hseg⟩
  · exact owns_iff.2 (.inl hroot)
  rcases owns_iff.1 hq with hroot | ⟨rest', hrest', hseg'⟩
  · -- the root is the shortest path, so `p` is the root too
    rw [isRoot_iff] at hroot
    subst hroot
    by_cases hpr : root = p
    · rw [← hpr]
      exact owns_root _
    · have := size_lt_of_above (p := root) (q := p) ⟨hpr, owns_root _⟩
      omega
  · have happ : p.text.toList ++ rest = q.text.toList ++ rest' := hrest.symm.trans hrest'
    -- both are prefixes of one request path, so one is a prefix of the other
    rcases List.append_eq_append_iff.1 happ with ⟨mid, hmid, hrest₂⟩ | ⟨mid, hmid, -⟩
    · refine owns_iff.2 (.inr ⟨mid, hmid, ?_⟩)
      rcases startsSegment_iff.1 hseg with rfl | ⟨more, rfl⟩
      · obtain ⟨rfl, -⟩ := List.append_eq_nil_iff.1 hrest₂.symm
        rfl
      · cases mid with
        | nil => rfl
        | cons c mid =>
          obtain rfl : '/' = c := (List.cons.inj hrest₂).1
          rfl
    · -- `q` is a prefix of `p` and not shorter, so it is `p`
      have hsize := size_of_toList_append hmid
      have hzero : (String.ofList mid).utf8ByteSize = 0 := by omega
      have hnil : mid = [] := by
        simpa using congrArg String.toList (String.utf8ByteSize_eq_zero_iff.1 hzero)
      rw [hnil, List.append_nil] at hmid
      rw [← ext_text (String.toList_inj.1 hmid)]
      exact owns_text_self p

theorem eq_or_above_or_above {p q : ContextPath} {uri : String} (hp : p.owns uri = true)
    (hq : q.owns uri = true) : p = q ∨ p.Above q ∨ q.Above p := by
  by_cases hpq : p = q
  · exact .inl hpq
  · rcases Nat.le_total p.text.utf8ByteSize q.text.utf8ByteSize with hle | hle
    · exact .inr (.inl ⟨hpq, owns_text_of_size_le hp hq hle⟩)
    · exact .inr (.inr ⟨Ne.symm hpq, owns_text_of_size_le hq hp hle⟩)

end ContextPath

/-! ### The innermost owner -/

@[simp] theorem ContextState.isAvailable_iff {s : ContextState} :
    s.isAvailable = true ↔ s = .started := by
  simp [isAvailable]

namespace Host

theorem longest_eq_none_iff {contexts : List Context} :
    longest contexts = none ↔ contexts = [] := by
  cases contexts with
  | nil => simp [longest]
  | cons c rest =>
    rw [longest]
    split
    · simp
    · split <;> simp

/-- The longest is one of the contexts, and none of them is longer. -/
theorem longest_spec {contexts : List Context} {c : Context} (h : longest contexts = some c) :
    c ∈ contexts ∧
      ∀ d ∈ contexts, d.path.text.utf8ByteSize ≤ c.path.text.utf8ByteSize := by
  induction contexts generalizing c with
  | nil => simp [longest] at h
  | cons head rest ih =>
    rw [longest] at h
    split at h
    · next hnone =>
      obtain rfl : head = c := by simpa using h
      rw [longest_eq_none_iff] at hnone
      simp [hnone]
    · next d hd =>
      obtain ⟨hmem, hmax⟩ := ih hd
      -- the head is taken only where it is longer than the longest of the rest
      split at h
      · next hlt =>
        obtain rfl : head = c := by simpa using h
        refine ⟨by simp, fun e he => ?_⟩
        rcases List.mem_cons.1 he with rfl | he
        · exact Nat.le_refl _
        · have := hmax e he
          omega
      · next hnlt =>
        obtain rfl : d = c := by simpa using h
        refine ⟨by simp [hmem], fun e he => ?_⟩
        rcases List.mem_cons.1 he with rfl | he
        · omega
        · exact hmax e he

theorem findContext_eq_none_iff {h : Host} {uri : String} :
    h.findContext uri = none ↔
      ∀ p c, h.contexts.get? p = some c → c.state = .started → c.path.owns uri = false := by
  unfold findContext
  rw [longest_eq_none_iff, List.filter_eq_nil_iff]
  simp only [Bool.and_eq_true, ContextState.isAvailable_iff, not_and, Bool.not_eq_true]
  constructor
  · exact fun hall p c hc => hall c (PathTable.mem_values_iff.2 ⟨p, hc⟩)
  · intro hall c hc
    obtain ⟨p, hp⟩ := PathTable.mem_values_iff.1 hc
    exact hall p c hp

theorem findContext_spec {h : Host} {uri : String} {c : Context}
    (hc : h.findContext uri = some c) :
    (∃ p, h.contexts.get? p = some c) ∧ c.state = .started ∧ c.path.owns uri = true ∧
      ∀ p d, h.contexts.get? p = some d → d.state = .started → d.path.owns uri = true →
        d.path.owns c.path.text = true := by
  unfold findContext at hc
  obtain ⟨hmem, hmax⟩ := longest_spec hc
  rw [List.mem_filter, PathTable.mem_values_iff, Bool.and_eq_true,
    ContextState.isAvailable_iff] at hmem
  obtain ⟨hreg, hstate, howns⟩ := hmem
  refine ⟨hreg, hstate, howns, fun p d hd hdstate hdowns => ?_⟩
  -- two owners of one path are comparable, and this one is not the longer
  refine ContextPath.owns_text_of_size_le hdowns howns (hmax d ?_)
  rw [List.mem_filter, PathTable.mem_values_iff, Bool.and_eq_true, ContextState.isAvailable_iff]
  exact ⟨⟨p, hd⟩, hdstate, hdowns⟩

end Host

end Hosting
