import Hosting.Scanner.Ownership
import Mathlib.Data.List.Pairwise

/-! # The deepest root owns a change

    Roots may lie inside each other, and are compared component by component: doubled slashes
    and slashes at the end do not count. The roots that contain one path are all beginnings of
    it, so they form a chain, and the one with the most components lies in all the others.
    Where no two roots are one path there is no second such root, so their order in the list
    cannot matter.

    - `Contains`: one path is the beginning of another.
    - `contains_of_depth_le`: the chain.
    - `IsDeepest`: what the search for the most components comes to.
    - `owner_deepest`: the owner of a change, for any roots and any path.
-/

namespace Hosting

/-- The path lies in the directory, or is the directory itself. -/
def FilePath.Contains (dir p : FilePath) : Prop :=
  dir.components <+: p.components

instance (dir p : FilePath) : Decidable (dir.Contains p) :=
  inferInstanceAs (Decidable (_ <+: _))

/-- A path contains itself, in any spelling. -/
theorem FilePath.contains_of_components_eq {p q : FilePath} (h : p.components = q.components) :
    p.Contains q := by
  unfold Contains
  exact h ▸ List.prefix_rfl

theorem FilePath.startsWith_iff {p dir : FilePath} : p.startsWith dir = true ↔ dir.Contains p := by
  rw [startsWith, Contains, List.isPrefixOf_iff_prefix]

namespace Roots

variable {roots others : Roots} {path : FilePath} {root other : FilePath × ContextPath}

/-! ### The search -/

theorem mem_above_iff : root ∈ roots.above path ↔ root ∈ roots ∧ root.1.Contains path := by
  rw [above, List.mem_filter, FilePath.startsWith_iff]

theorem deepest_eq_none_iff : roots.deepest = none ↔ roots = [] := by
  cases roots with
  | nil => simp [deepest]
  | cons root rest =>
    rw [deepest]
    split
    · simp
    · split <;> simp

/-- The deepest is one of the roots, and none of them has more components. -/
theorem deepest_spec (h : roots.deepest = some root) :
    root ∈ roots ∧ ∀ other ∈ roots, depth other ≤ depth root := by
  induction roots generalizing root with
  | nil => simp [deepest] at h
  | cons head rest ih =>
    rw [deepest] at h
    split at h
    · next hnone =>
      rw [deepest_eq_none_iff] at hnone
      obtain rfl := Option.some.inj h
      simp [hnone]
    · next best hbest =>
      obtain ⟨hmem, hmax⟩ := ih hbest
      split at h
      · next hlt =>
        -- the head beats the deepest of the rest, and with it all of them
        obtain rfl := Option.some.inj h
        refine ⟨by simp, ?_⟩
        intro other hother
        rcases List.mem_cons.1 hother with rfl | hrest
        · exact Nat.le_refl _
        · have := hmax other hrest
          omega
      · next hle =>
        obtain rfl := Option.some.inj h
        refine ⟨by simp [hmem], ?_⟩
        intro other hother
        rcases List.mem_cons.1 hother with rfl | hrest
        · omega
        · exact hmax other hrest

/-! ### The chain of the roots above a path -/

/-- Of two roots that contain a path, the one with fewer components contains the other. -/
theorem contains_of_depth_le (hroot : root.1.Contains path) (hother : other.1.Contains path)
    (hle : depth other ≤ depth root) : other.1.Contains root.1 :=
  List.prefix_of_prefix_length_le hother hroot hle

/-- The root contains the path and lies in every other root that contains it. -/
structure IsDeepest (roots : Roots) (path : FilePath) (root : FilePath × ContextPath) : Prop where
  mem : root ∈ roots
  contains : root.1.Contains path
  inside (other : FilePath × ContextPath) :
    other ∈ roots → other.1.Contains path → other.1.Contains root.1

/-- No two of the roots are one path, however they are spelled. -/
def Distinct (roots : Roots) : Prop :=
  roots.Pairwise fun a b => a.1.components ≠ b.1.components

theorem Distinct.eq (hdistinct : roots.Distinct) (hroot : root ∈ roots) (hother : other ∈ roots)
    (hsame : root.1.components = other.1.components) : root = other := by
  have : Std.Symm fun a b : FilePath × ContextPath => a.1.components ≠ b.1.components :=
    ⟨fun _ _ hab => hab.symm⟩
  refine Classical.byContradiction fun hne => ?_
  exact List.Pairwise.forall hdistinct hroot hother hne hsame

/-- Two deepest roots lie in each other, so they are one path. -/
theorem IsDeepest.unique (hdistinct : roots.Distinct) (hroot : IsDeepest roots path root)
    (hother : IsDeepest roots path other) : root = other := by
  have hdown : other.1.components <+: root.1.components :=
    hroot.inside other hother.mem hother.contains
  have hup : root.1.components <+: other.1.components :=
    hother.inside root hroot.mem hroot.contains
  exact hdistinct.eq hroot.mem hother.mem
    (hup.eq_of_length_le hdown.length_le)

theorem IsDeepest.of_perm (hperm : others.Perm roots) (h : IsDeepest roots path root) :
    IsDeepest others path root :=
  ⟨hperm.mem_iff.2 h.mem, h.contains, fun other hother => h.inside other (hperm.mem_iff.1 hother)⟩

/-! ### Owners -/

theorem owner?_eq_none_iff :
    roots.owner? path = none ↔ ∀ root ∈ roots, ¬ root.1.Contains path := by
  unfold owner?
  rw [Option.map_eq_none_iff, deepest_eq_none_iff, List.eq_nil_iff_forall_not_mem]
  simp only [mem_above_iff, not_and]

theorem isDeepest_of_owner? {c : ContextPath} (h : roots.owner? path = some c) :
    ∃ root, IsDeepest roots path (root, c) := by
  obtain ⟨⟨root, c'⟩, hdeepest, rfl⟩ := Option.map_eq_some_iff.1 h
  obtain ⟨hmem, hmax⟩ := deepest_spec hdeepest
  obtain ⟨hin, hcontains⟩ := mem_above_iff.1 hmem
  refine ⟨root, hin, hcontains, ?_⟩
  intro other hother habove
  exact contains_of_depth_le hcontains habove (hmax other (mem_above_iff.2 ⟨hother, habove⟩))

theorem owner?_eq_some_iff (hdistinct : roots.Distinct) {c : ContextPath} :
    roots.owner? path = some c ↔ ∃ root, IsDeepest roots path (root, c) := by
  refine ⟨isDeepest_of_owner?, ?_⟩
  intro ⟨root, hroot⟩
  cases hfound : roots.owner? path with
  | none => exact absurd hroot.contains (owner?_eq_none_iff.1 hfound _ hroot.mem)
  | some d =>
    obtain ⟨root', hroot'⟩ := isDeepest_of_owner? hfound
    rw [(Prod.mk.inj (hroot.unique hdistinct hroot')).2]

theorem Distinct.of_perm (hdistinct : roots.Distinct) (hperm : others.Perm roots) :
    others.Distinct :=
  hperm.symm.pairwise hdistinct fun hab => hab.symm

/-- A change belongs to no context exactly if no root contains its path. Otherwise it belongs to the
    context of a root that contains the path and lies in every other root that does. If no two
    roots are one path, there is one such root, and its context is found whatever the order of
    the roots is. -/
theorem owner_deepest (roots : Roots) (path : FilePath) :
    (roots.owner? path = none ↔ ∀ root ∈ roots, ¬ root.1.Contains path) ∧
      (∀ c, roots.owner? path = some c → ∃ root, IsDeepest roots path (root, c)) ∧
      (roots.Distinct →
        (∀ c, roots.owner? path = some c ↔ ∃ root, IsDeepest roots path (root, c)) ∧
          ∀ others : Roots, others.Perm roots → others.owner? path = roots.owner? path) := by
  refine ⟨owner?_eq_none_iff, fun c => isDeepest_of_owner?, fun hdistinct => ?_⟩
  refine ⟨fun c => owner?_eq_some_iff hdistinct, fun others hperm => ?_⟩
  apply Option.ext
  intro c
  rw [owner?_eq_some_iff hdistinct, owner?_eq_some_iff (hdistinct.of_perm hperm)]
  constructor
  · intro ⟨root, hroot⟩
    exact ⟨root, hroot.of_perm hperm.symm⟩
  · intro ⟨root, hroot⟩
    exact ⟨root, hroot.of_perm hperm⟩

/-- A root for the whole directory, one inside it that is spelled with idle slashes, and one that is
    reached by way of the working directory only. -/
def shopRoots : Roots :=
  [(⟨"/srv/apps"⟩, .root), (⟨"//srv/apps//shop/"⟩, ⟨"/store", by decide⟩),
    (⟨"apps/shop"⟩, ⟨"/here", by decide⟩)]

/-- The deeper of two containing roots owns the change, in any order of the list. -/
theorem owner_deepest_shop :
    shopRoots.Distinct ∧
      (shopRoots.owner? ⟨"/srv/apps/shop/./index.html"⟩).map (·.text) = some "/store" ∧
      (shopRoots.owner? ⟨"/srv/apps/shopping/a.txt"⟩).map (·.text) = some "/" ∧
      (∀ c, shopRoots.owner? ⟨"/srv/apps/shop/./index.html"⟩ = some c ↔
        ∃ root, IsDeepest shopRoots ⟨"/srv/apps/shop/./index.html"⟩ (root, c)) ∧
      owner? shopRoots.reverse ⟨"/srv/apps/shop/./index.html"⟩ =
        shopRoots.owner? ⟨"/srv/apps/shop/./index.html"⟩ := by
  have hdistinct : shopRoots.Distinct := by
    unfold Distinct shopRoots
    decide +kernel
  obtain ⟨howner, hperm⟩ := (owner_deepest shopRoots ⟨"/srv/apps/shop/./index.html"⟩).2.2 hdistinct
  refine ⟨hdistinct, by decide +kernel, by decide +kernel, howner, ?_⟩
  exact hperm _ (List.reverse_perm _)

end Roots

end Hosting
