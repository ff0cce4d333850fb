import Hosting.Classpath

/-! # Lists of libraries

    A search path has each place once. Libraries are added to it one by one, and one whose
    place is taken is passed over, so that of all that were added for a place the first one
    stays. The archives of a directory come in the order of their names.

    - `eraseDupsBy_filter`, `eq_of_ascending`: lists rid of repetitions, and lists in order.
    - `eachPlaceOnce`: the list that is left when only the first library of a place stays.
    - `foldl_addNew`, `pushAll_eq`: adding one by one comes to this list.
    - `listsArchives_expand`: what the archives of a directory are.
-/

namespace Hosting

/-! ### The first of each kind -/

section Once

variable {α : Type} {r : α → α → Bool}

/-- The rest of a list is rid of the repetitions of the first element before anything else is done
    with it, so this is what an induction goes by. -/
theorem eraseDupsBy_induction {motive : List α → Prop} (nil : motive [])
    (cons : ∀ a rest, motive (rest.filter fun b => decide (r b a = false)) → motive (a :: rest))
    (l : List α) : motive l := by
  induction hn : l.length using Nat.strongRecOn generalizing l with
  | ind n ih =>
    cases l with
    | nil => exact nil
    | cons a rest =>
      have hfilter := List.length_filter_le (fun b => decide (r b a = false)) rest
      have hlt : (rest.filter fun b => decide (r b a = false)).length < n := by
        rw [List.length_cons] at hn
        omega
      exact cons a rest (ih _ hlt _ rfl)

/-- What is left when repetitions are taken out stands in the list in the same order. -/
theorem eraseDupsBy_sublist (l : List α) : (l.eraseDupsBy r).Sublist l := by
  induction l using eraseDupsBy_induction (r := r) with
  | nil => exact .slnil
  | cons a rest ih =>
    rw [List.eraseDupsBy_cons]
    exact .cons_cons a (ih.trans List.filter_sublist)

/-- Nothing that is left repeats what is left before it. -/
theorem pairwise_eraseDupsBy (l : List α) :
    (l.eraseDupsBy r).Pairwise fun a b => r b a = false := by
  induction l using eraseDupsBy_induction (r := r) with
  | nil => exact .nil
  | cons a rest ih =>
    rw [List.eraseDupsBy_cons]
    refine List.pairwise_cons.2 ⟨fun b hb => ?_, ih⟩
    have hkept := (eraseDupsBy_sublist _).subset hb
    simpa using (List.mem_filter.1 hkept).2

/-- Where repetitions are kept or left out together, it does not matter which is done first. -/
theorem eraseDupsBy_filter {p : α → Bool} (hp : ∀ a b, r b a = true → p b = p a) (l : List α) :
    (l.filter p).eraseDupsBy r = (l.eraseDupsBy r).filter p := by
  induction l using eraseDupsBy_induction (r := r) with
  | nil => rfl
  | cons a rest ih =>
    rw [List.eraseDupsBy_cons]
    by_cases ha : p a = true
    · rw [List.filter_cons_of_pos ha, List.filter_cons_of_pos ha, List.eraseDupsBy_cons, ← ih,
        List.filter_filter, List.filter_filter]
      simp only [Bool.and_comm]
    · -- the repetitions of `a` are left out with it
      rw [List.filter_cons_of_neg ha, List.filter_cons_of_neg ha, ← ih, List.filter_filter]
      congr 1
      apply List.filter_congr
      intro b _
      cases hb : p b with
      | false => rfl
      | true =>
        have hne : r b a = false := by
          apply Bool.eq_false_iff.2
          intro hrepeats
          rw [hp a b hrepeats] at hb
          exact ha hb
        rw [hne]
        rfl

theorem eraseDups_nodup [BEq α] [LawfulBEq α] (l : List α) : l.eraseDups.Nodup := by
  refine (pairwise_eraseDupsBy l).imp fun hne heq => ?_
  rw [heq] at hne
  simp at hne

/-- What ascends is determined by its members. -/
theorem eq_of_ascending {lt : α → α → Prop} (hasymm : ∀ a b, lt a b → ¬ lt b a) {l l' : List α}
    (h : l.Pairwise lt) (h' : l'.Pairwise lt) (hmem : ∀ a, a ∈ l ↔ a ∈ l') : l = l' := by
  have hnodup {l : List α} (hl : l.Pairwise lt) : l.Nodup := by
    apply hl.imp
    intro a b hlt heq
    rw [heq] at hlt
    exact hasymm b b hlt hlt
  have hperm : l.Perm l' := (List.perm_ext_iff_of_nodup (hnodup h) (hnodup h')).2 hmem
  apply List.Perm.eq_of_pairwise _ h h' hperm
  intro a b _ _ hab hba
  exact absurd hba (hasymm a b hab)

end Once

/-! ### Places -/

namespace FilePath

theorem same_iff {p q : FilePath} : p.same q = true ↔ p.components = q.components := by
  unfold same
  exact beq_iff_eq

theorem same_comm (p q : FilePath) : p.same q = q.same p := by
  apply Bool.eq_iff_iff.2
  rw [same_iff, same_iff]
  exact eq_comm

end FilePath

namespace Library

/-- The libraries with only the first one of each place left. -/
def eachPlaceOnce (ls : List Library) : List Library :=
  ls.eraseDupsBy fun later first => later.path.same first.path

/-- No two of the libraries are at one place. -/
def AtDistinctPlaces (ls : List Library) : Prop :=
  ls.Pairwise fun a b => a.path.same b.path = false

theorem atDistinctPlaces_eachPlaceOnce (ls : List Library) :
    AtDistinctPlaces (eachPlaceOnce ls) := by
  refine (pairwise_eraseDupsBy ls).imp fun {a b} h => ?_
  rw [FilePath.same_comm]
  exact h

end Library

namespace Classpath

open Library

/-- Adding libraries one by one comes to the ones that were there, and then the first of each new
    place. -/
theorem foldl_addNew (found ls : List Library) :
    ls.foldl addNew found =
      found ++ eachPlaceOnce (ls.filter fun l => !found.any fun k => k.path.same l.path) := by
  induction ls generalizing found with
  | nil =>
    show found = found ++ []
    rw [List.append_nil]
  | cons l rest ih =>
    rw [List.foldl_cons, ih]
    by_cases htaken : (found.any fun k => k.path.same l.path) = true
    · -- the library is passed over, and it is filtered out
      have hadd : addNew found l = found := if_pos htaken
      rw [hadd, List.filter_cons_of_neg (by rw [htaken]; simp)]
    · -- the library takes its place, which filters the rest once more
      have hadd : addNew found l = found ++ [l] := if_neg htaken
      rw [hadd, List.filter_cons_of_pos (by simpa using htaken)]
      unfold eachPlaceOnce
      rw [List.eraseDupsBy_cons, List.filter_filter, List.append_assoc, List.singleton_append]
      congr 3
      apply List.filter_congr
      intro k _
      rw [FilePath.same_comm k.path l.path, List.any_append, List.any_cons, List.any_nil,
        Bool.or_false, Bool.not_or]
      cases l.path.same k.path <;> simp

/-- Libraries at distinct places are all added. -/
theorem foldl_addNew_distinct {found ls : List Library} (h : AtDistinctPlaces (found ++ ls)) :
    ls.foldl addNew found = found ++ ls := by
  induction ls generalizing found with
  | nil => exact (List.append_nil found).symm
  | cons l rest ih =>
    have hfree : ¬ (found.any fun k => k.path.same l.path) = true := by
      intro htaken
      obtain ⟨k, hk, hsame⟩ := List.any_eq_true.1 htaken
      have hne := (List.pairwise_append.1 h).2.2 k hk l (List.mem_cons_self ..)
      rw [hsame] at hne
      cases hne
    have hadd : addNew found l = found ++ [l] := if_neg hfree
    rw [List.append_cons] at h
    rw [List.foldl_cons, hadd, ih h, List.append_assoc, List.singleton_append]

theorem foldl_addNew_nil {ls : List Library} (h : AtDistinctPlaces ls) :
    ls.foldl addNew [] = ls := by
  have hall : AtDistinctPlaces ([] ++ ls) := h
  exact foldl_addNew_distinct hall

theorem eachPlaceOnce_eq_foldl (ls : List Library) : eachPlaceOnce ls = ls.foldl addNew [] := by
  have hall : (ls.filter fun l => !([] : List Library).any fun k => k.path.same l.path) = ls := by
    apply List.filter_eq_self.2
    intro l _
    rfl
  rw [foldl_addNew, hall, List.nil_append]

/-- What tokens name has each place once. -/
theorem atDistinctPlaces_resolve (c : Classpath) (m : Machine) (tokens : List String)
    (base : FilePath) : AtDistinctPlaces (c.resolve m tokens base) := by
  unfold resolve
  rw [← eachPlaceOnce_eq_foldl]
  exact atDistinctPlaces_eachPlaceOnce _

/-- What a classpath text names has each place once. -/
theorem atDistinctPlaces_resolveText (c : Classpath) (m : Machine) (raw : String)
    (base : FilePath) : AtDistinctPlaces (c.resolveText m raw base) :=
  c.atDistinctPlaces_resolve m (c.split raw) base

/-! ### Archives of a directory -/

/-- The libraries are the archives directly inside a directory, by name. What counts is that the
    path of the directory with the name behind it leads to a regular file. -/
structure ListsArchives (c : Classpath) (m : Machine) (dir : FilePath) (names : List String) :
    Prop where
  sorted : names.Pairwise (· ≤ ·)
  nodup : names.Nodup
  mem_iff (name : String) : name ∈ names ↔
    (∃ all, m.names? dir = some all ∧ name ∈ all) ∧ m.isFile (dir.join ⟨name⟩) = true ∧
      c.isArchive (dir.join ⟨name⟩) = true

/-- What is sorted and has nothing twice ascends. -/
theorem ListsArchives.ascending {c : Classpath} {m : Machine} {dir : FilePath} {names : List String}
    (h : c.ListsArchives m dir names) : names.Pairwise (· < ·) := by
  apply (List.pairwise_and_iff.2 ⟨h.sorted, h.nodup⟩).imp
  intro a b hab
  apply Decidable.byContradiction
  intro hlt
  exact hab.2 (String.le_antisymm hab.1 (String.not_lt.1 hlt))

/-- They are determined by the directory. -/
theorem ListsArchives.unique {c : Classpath} {m : Machine} {dir : FilePath}
    {names names' : List String} (h : c.ListsArchives m dir names)
    (h' : c.ListsArchives m dir names') : names = names' := by
  apply eq_of_ascending _ h.ascending h'.ascending
  · intro name
    rw [h.mem_iff, h'.mem_iff]
  · intro a b hab
    exact String.lt_asymm hab

theorem nodup_of_names? {m : Machine} {dir : FilePath} {names : List String}
    (h : m.names? dir = some names) : names.Nodup := by
  unfold Machine.names? at h
  split at h
  · cases h
  · next place _ =>
    split at h
    · obtain rfl := Option.some.inj h
      unfold FileTree.childNames
      split
      · exact .nil
      · exact eraseDups_nodup _
    · cases h

/-- The archives that are found in a directory are those directly inside it, under the path that
    the directory has from the root. There are none if it has no such path. -/
theorem listsArchives_expand (c : Classpath) (m : Machine) (dir : FilePath) :
    (∀ e, m.canonical dir = .error e → c.expand m dir = []) ∧
      ∀ place, m.canonical dir = .ok place →
        ∃ names, c.ListsArchives m place names ∧
          c.expand m dir = names.map fun name : String => ⟨place.join ⟨name⟩, .archive⟩ := by
  refine ⟨fun e he => ?_, fun place hplace => ?_⟩
  · unfold expand
    rw [he]
  · let all := (m.names? place).getD []
    let counts (name : String) : Bool :=
      m.isFile (place.join ⟨name⟩) && c.isArchive (place.join ⟨name⟩)
    have hall : all.Nodup := by
      show ((m.names? place).getD []).Nodup
      cases hnames : m.names? place with
      | none => exact .nil
      | some names => exact nodup_of_names? hnames
    refine ⟨all.mergeSort.filter counts, ⟨?_, ?_, fun name => ?_⟩, ?_⟩
    · have hsorted : all.mergeSort.Pairwise fun a b => decide (a ≤ b) = true := by
        apply List.pairwise_mergeSort
        · intro a b c hab hbc
          exact decide_eq_true (String.le_trans (of_decide_eq_true hab) (of_decide_eq_true hbc))
        · intro a b
          simpa using String.le_total a b
      exact (hsorted.imp of_decide_eq_true).sublist List.filter_sublist
    · exact ((List.mergeSort_perm all _).nodup_iff.2 hall).sublist List.filter_sublist
    · have hmem : name ∈ all ↔ ∃ names, m.names? place = some names ∧ name ∈ names := by
        show name ∈ (m.names? place).getD [] ↔ _
        cases m.names? place <;> simp
      rw [List.mem_filter, List.mem_mergeSort, hmem, Bool.and_eq_true]
    · unfold expand
      rw [hplace]
      simp only [List.filter_map, List.map_map]
      rfl

end Classpath

/-! ### Search paths -/

namespace LibrarySet

open Library

theorem push_eq (s : LibrarySet) (l : Library) :
    s.push l = { s with libraries := Classpath.addNew s.libraries l } := by
  unfold push Classpath.addNew holds
  split <;> rfl

/-- On a search path, libraries are added as they are to any list. Its rules stay. -/
theorem pushAll_eq (s : LibrarySet) (ls : List Library) :
    s.pushAll ls = { s with libraries := ls.foldl Classpath.addNew s.libraries } := by
  unfold pushAll
  induction ls generalizing s with
  | nil => rfl
  | cons l rest ih => rw [List.foldl_cons, List.foldl_cons, ih, push_eq]

end LibrarySet

end Hosting
