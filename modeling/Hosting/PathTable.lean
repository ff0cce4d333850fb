import Hosting.ContextPath

/-! # Tables by context path

    The host keeps its contexts and their descriptors by path, in the order of the paths.
    The entries are sorted and no path comes twice, so a table is known by what it answers
    for each path (`ext_get?`).
-/

namespace Hosting

/-- Entries by context path, in order, one for a path. -/
structure PathTable (α : Type) where
  entries : List (ContextPath × α)
  sorted : entries.Pairwise fun a b => a.1 < b.1

namespace PathTable

variable {α β : Type}

/-- The table without entries. -/
def empty : PathTable α := ⟨[], .nil⟩

/-- The first entry for a path. -/
def findEntry (p : ContextPath) : List (ContextPath × α) → Option α
  | [] => none
  | (q, w) :: rest => if p = q then some w else findEntry p rest

/-- The entry for a path. -/
def get? (t : PathTable α) (p : ContextPath) : Option α :=
  findEntry p t.entries

/-- The path has an entry. -/
def contains (t : PathTable α) (p : ContextPath) : Bool :=
  (t.get? p).isSome

/-- The paths, in order. -/
def paths (t : PathTable α) : List ContextPath :=
  t.entries.map (·.1)

/-- The entries without their paths, in order. -/
def values (t : PathTable α) : List α :=
  t.entries.map (·.2)

/-- The number of entries. -/
def size (t : PathTable α) : Nat :=
  t.entries.length

/-- Puts an entry in its place, instead of one for the same path. -/
def insertEntry (p : ContextPath) (v : α) : List (ContextPath × α) → List (ContextPath × α)
  | [] => [(p, v)]
  | (q, w) :: rest =>
    if p < q then (p, v) :: (q, w) :: rest
    else if q < p then (q, w) :: insertEntry p v rest
    else (p, v) :: rest

theorem mem_insertEntry {p : ContextPath} {v : α} {entries : List (ContextPath × α)}
    {e : ContextPath × α} (h : e ∈ insertEntry p v entries) : e = (p, v) ∨ e ∈ entries := by
  induction entries with
  | nil => simpa [insertEntry] using h
  | cons head rest ih =>
    rw [insertEntry] at h
    split at h
    · simpa using h
    · split at h
      · rcases List.mem_cons.1 h with rfl | h
        · simp
        · rcases ih h with h | h <;> simp [h]
      · rcases List.mem_cons.1 h with rfl | h <;> simp [*]

theorem sorted_insertEntry (p : ContextPath) (v : α) {entries : List (ContextPath × α)}
    (h : entries.Pairwise fun a b => a.1 < b.1) :
    (insertEntry p v entries).Pairwise fun a b => a.1 < b.1 := by
  induction entries with
  | nil => simp [insertEntry]
  | cons head rest ih =>
    have hhead := (List.pairwise_cons.1 h).1
    have hrest := (List.pairwise_cons.1 h).2
    rw [insertEntry]
    split
    · next hlt =>
      refine List.pairwise_cons.2 ⟨fun b hb => ?_, h⟩
      rcases List.mem_cons.1 hb with rfl | hb
      · exact hlt
      · exact ContextPath.lt_trans hlt (hhead b hb)
    · next hnlt =>
      split
      · next hlt =>
        refine List.pairwise_cons.2 ⟨fun b hb => ?_, ih hrest⟩
        rcases mem_insertEntry hb with rfl | hb
        · exact hlt
        · exact hhead b hb
      · next hngt =>
        have heq : p = head.1 := ContextPath.eq_of_not_lt hnlt hngt
        refine List.pairwise_cons.2 ⟨fun b hb => ?_, hrest⟩
        rw [heq]
        exact hhead b hb

/-- The table with an entry for a path. -/
def insert (t : PathTable α) (p : ContextPath) (v : α) : PathTable α :=
  ⟨insertEntry p v t.entries, sorted_insertEntry p v t.sorted⟩

/-- The table without an entry for a path. -/
def erase (t : PathTable α) (p : ContextPath) : PathTable α :=
  ⟨t.entries.filter (·.1 ≠ p), t.sorted.filter _⟩

/-! ### What a table answers -/

@[simp] theorem get?_empty (p : ContextPath) : (empty : PathTable α).get? p = none := rfl

theorem findEntry_insertEntry (p q : ContextPath) (v : α)
    (entries : List (ContextPath × α)) :
    findEntry q (insertEntry p v entries) = if q = p then some v else findEntry q entries := by
  induction entries with
  | nil => simp [insertEntry, findEntry]
  | cons head rest ih =>
    rw [insertEntry]
    split
    · simp [findEntry]
    · next hnlt =>
      split
      · next hlt =>
        have hne : head.1 ≠ p := fun h => ContextPath.lt_irrefl p (h ▸ hlt)
        simp only [findEntry, ih]
        split
        · next hq => simp [hq, hne]
        · rfl
      · next hngt =>
        have heq : p = head.1 := ContextPath.eq_of_not_lt hnlt hngt
        subst heq
        simp only [findEntry]
        split <;> rfl

@[simp] theorem get?_insert (t : PathTable α) (p q : ContextPath) (v : α) :
    (t.insert p v).get? q = if q = p then some v else t.get? q :=
  findEntry_insertEntry p q v t.entries

@[simp] theorem get?_erase (t : PathTable α) (p q : ContextPath) :
    (t.erase p).get? q = if q = p then none else t.get? q := by
  obtain ⟨entries, sorted⟩ := t
  simp only [get?, erase]
  clear sorted
  induction entries with
  | nil => simp [findEntry]
  | cons head rest ih =>
    by_cases hp : head.1 = p
    · rw [List.filter_cons_of_neg (by simp [hp]), ih, findEntry, hp]
      split <;> rfl
    · rw [List.filter_cons_of_pos (by simp [hp]), findEntry, ih, findEntry]
      by_cases hq : q = head.1
      · simp [hq, hp]
      · simp [hq]

theorem findEntry_eq_none {p : ContextPath} {entries : List (ContextPath × α)}
    (h : ∀ e ∈ entries, e.1 ≠ p) : findEntry p entries = none := by
  induction entries with
  | nil => rfl
  | cons head rest ih =>
    rw [findEntry, if_neg fun hp => h head (by simp) hp.symm]
    exact ih fun e he => h e (by simp [he])

theorem mem_entries_iff (t : PathTable α) (p : ContextPath) (v : α) :
    (p, v) ∈ t.entries ↔ t.get? p = some v := by
  obtain ⟨entries, sorted⟩ := t
  simp only [get?]
  induction entries with
  | nil => simp [findEntry]
  | cons head rest ih =>
    have hhead := (List.pairwise_cons.1 sorted).1
    have hrest := ih (List.pairwise_cons.1 sorted).2
    obtain ⟨q, w⟩ := head
    rw [findEntry, List.mem_cons, hrest]
    by_cases hp : p = q
    · subst hp
      have hnone : findEntry p rest = none :=
        findEntry_eq_none fun e he heq => ContextPath.lt_irrefl p (heq ▸ hhead e he)
      simp [hnone, eq_comm]
    · simp [hp]

theorem mem_values_iff {t : PathTable α} {v : α} :
    v ∈ t.values ↔ ∃ p, t.get? p = some v := by
  unfold values
  rw [List.mem_map]
  constructor
  · rintro ⟨⟨p, v'⟩, hmem, rfl⟩
    exact ⟨p, (mem_entries_iff t p v').1 hmem⟩
  · rintro ⟨p, hp⟩
    exact ⟨(p, v), (mem_entries_iff t p v).2 hp, rfl⟩

/-- Ordered entries are known by their members. -/
theorem eq_of_mem_iff {xs ys : List (ContextPath × α)}
    (hxs : xs.Pairwise fun a b => a.1 < b.1) (hys : ys.Pairwise fun a b => a.1 < b.1)
    (hm : ∀ e, e ∈ xs ↔ e ∈ ys) : xs = ys := by
  induction xs generalizing ys with
  | nil =>
    symm
    exact List.eq_nil_iff_forall_not_mem.2 fun e he => by simpa using (hm e).2 he
  | cons x xs ih =>
    cases ys with
    | nil => simpa using (hm x).1 (by simp)
    | cons y ys =>
      obtain ⟨hx, hxs'⟩ := List.pairwise_cons.1 hxs
      obtain ⟨hy, hys'⟩ := List.pairwise_cons.1 hys
      have hxy : x = y := by
        rcases List.mem_cons.1 ((hm x).1 (by simp)) with h | h
        · exact h
        rcases List.mem_cons.1 ((hm y).2 (by simp)) with h' | h'
        · exact h'.symm
        exact absurd (ContextPath.lt_trans (hx y h') (hy x h)) (ContextPath.lt_irrefl _)
      subst hxy
      have hne : ∀ zs : List (ContextPath × α), (∀ b ∈ zs, x.1 < b.1) → x ∉ zs :=
        fun zs hz hmem => ContextPath.lt_irrefl _ (hz x hmem)
      congr 1
      refine ih hxs' hys' fun e => ?_
      have he := hm e
      simp only [List.mem_cons] at he
      by_cases hex : e = x
      · subst hex
        exact iff_of_false (hne xs hx) (hne ys hy)
      · simpa [hex] using he

/-- Tables that answer the same are the same. -/
theorem ext_get? {t u : PathTable α} (h : ∀ p, t.get? p = u.get? p) : t = u := by
  have hm : ∀ e, e ∈ t.entries ↔ e ∈ u.entries := fun e => by
    rw [show e = (e.1, e.2) from rfl, mem_entries_iff, mem_entries_iff, h]
  obtain ⟨xs, hx⟩ := t
  obtain ⟨ys, hy⟩ := u
  obtain rfl : xs = ys := eq_of_mem_iff hx hy hm
  rfl

end PathTable

end Hosting
