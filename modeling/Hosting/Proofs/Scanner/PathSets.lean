import Hosting.Scanner.Watcher
import Hosting.Proofs.Library.Listings
import Hosting.Proofs.Lookup.ListedNames
import Hosting.Proofs.Scanner.DeepestRoots

/-! # Watched directories as a set of paths

    The watcher registers with a path every directory below it, numbers a watch for each place,
    and has a name for each watch. A caller relies on much less: to register a path adds it to
    a set, and to remove one takes it out, or fails if it is not there. That is what the watcher
    comes to for directories that lie apart from each other, however often and in whichever
    order they are registered and removed.

    - `KeepsPaths`: the set, for whatever is asked of the watcher about some paths.
    - `Apart`: no place is found below two of the paths, and none of them below another.
    - `Watcher.Matches`: registrations, watches and names agree about the numbers.
    - `matches_register`, `matches_discard`: what one registration and one removal preserve.
    - `keepsPaths_of_apart`: directories that lie apart are kept as a set.
-/

namespace Hosting

/-- The path from the root that a path is registered as. -/
def Machine.full (m : Machine) (p : FilePath) : FilePath :=
  m.workingPath.join p

/-- Two paths are registered as one. -/
def Machine.Agree (m : Machine) (p q : FilePath) : Prop :=
  (m.full p).components = (m.full q).components

instance (m : Machine) (p q : FilePath) : Decidable (m.Agree p q) :=
  inferInstanceAs (Decidable (_ = _))

namespace Watcher

variable {m : Machine} {dirs : List FilePath} {w w' : Watcher} {p q path : FilePath}
  {place other : Location} {n k : Nat} {known found : List (FilePath × Location)}

/-! ### The set of paths -/

/-- The path is registered. -/
def Holds (m : Machine) (w : Watcher) (p : FilePath) : Prop :=
  w.holds (m.full p) = true

instance (m : Machine) (w : Watcher) (p : FilePath) : Decidable (w.Holds m p) :=
  inferInstanceAs (Decidable (_ = true))

/-- The watchers that come of registering and removing some paths. -/
inductive Made (m : Machine) (dirs : List FilePath) : Watcher → Prop where
  | empty : Made m dirs .empty
  | watch {w w' : Watcher} {p : FilePath} :
    Made m dirs w → p ∈ dirs → w.watch m p = some w' → Made m dirs w'
  | unwatch {w : Watcher} {p : FilePath} :
    Made m dirs w → p ∈ dirs → Made m dirs (w.unwatch m p).1

/-- Whatever is asked of the watcher about some paths, it keeps a set of them. -/
structure KeepsPaths (m : Machine) (dirs : List FilePath) : Prop where
  /-- To register a path goes well, and adds it. -/
  watch {w : Watcher} {p : FilePath} : Made m dirs w → p ∈ dirs →
    ∃ w', w.watch m p = some w' ∧ ∀ q ∈ dirs, w'.Holds m q ↔ w.Holds m q ∨ m.Agree q p
  /-- To remove a path goes well if it is there, and takes it out. -/
  unwatch {w : Watcher} {p : FilePath} : Made m dirs w → p ∈ dirs →
    ((w.unwatch m p).2 = true ↔ w.Holds m p) ∧
      ∀ q ∈ dirs, (w.unwatch m p).1.Holds m q ↔ w.Holds m q ∧ ¬ m.Agree q p
  /-- Nothing is registered but what lies in a path of the set. -/
  below {w : Watcher} {r : Registration} : Made m dirs w → r ∈ w.registrations →
    ∃ p ∈ dirs, w.Holds m p ∧ (m.full p).Contains r.path

/-! ### One registration -/

/-- The watch of that number is on the place. -/
def Watches (w : Watcher) (n : Nat) (place : Location) : Prop :=
  ∃ v ∈ w.watches, v.number = n ∧ v.place = place

theorem lasts_iff : w.lasts n = true ↔ ∃ place, w.Watches n place := by
  simp [lasts, Watches]

/-- The watch on a place is the one that is there, or one with the next number. -/
theorem withWatch_spec (w : Watcher) (place : Location) (tells again : Bool) :
    ∃ made n, w.withWatch place tells again = (made, n) ∧
      made.registrations = w.registrations ∧ made.names = w.names ∧
      (∀ k other, made.Watches k other ↔ w.Watches k other ∨ k = n ∧ other = place) ∧
      (w.Watches n place ∧ made.next = w.next ∨
        n = w.next ∧ made.next = w.next + 1 ∧ ∀ k, ¬ w.Watches k place) := by
  unfold withWatch
  split
  · next old hold =>
    obtain ⟨hplace, hmem⟩ : old.place = place ∧ old ∈ w.watches := by
      unfold watchAt? at hold
      exact ⟨by simpa using List.find?_some hold, List.mem_of_find?_eq_some hold⟩
    have hthere : w.Watches old.number place := ⟨old, hmem, rfl, hplace⟩
    refine ⟨_, _, rfl, rfl, rfl, fun k other => ?_, .inl ⟨hthere, rfl⟩⟩
    -- only the interest in removal is written anew
    have hrewrite (f : Watch → Watch) (hf : ∀ v, (f v).number = v.number ∧ (f v).place = v.place) :
        { w with watches := w.watches.map f }.Watches k other ↔ w.Watches k other := by
      simp only [Watches, List.mem_map, exists_exists_and_eq_and, hf]
    rw [hrewrite _ fun v => by split <;> simp]
    constructor
    · exact .inl
    · rintro (h | ⟨rfl, rfl⟩)
      · exact h
      · exact hthere
  · next hnone =>
    refine ⟨_, _, rfl, rfl, rfl, fun k other => ?_, .inr ⟨rfl, rfl, ?_⟩⟩
    · simp only [Watches, List.mem_append, List.mem_singleton, or_and_right, exists_or,
        exists_eq_left]
      exact or_congr_right (and_congr eq_comm eq_comm)
    · rintro k ⟨v, hv, -, hplace⟩
      have := List.find?_eq_none.1 hnone v hv
      simp [hplace] at this

/-- A registered path has the number of the watch on its place, and is what that is reported
    under. -/
theorem register_spec (w : Watcher) (path : FilePath) (place : Location)
    (recursive tells : Bool) :
    ∃ n interest,
      (∀ r, r ∈ (w.register path place recursive tells).registrations ↔
        r ∈ w.registrations ∧ r.path.components ≠ path.components ∨
          r = ⟨path, n, interest, recursive⟩) ∧
      (∀ name, name ∈ (w.register path place recursive tells).names ↔
        name ∈ w.names ∧ name.1 ≠ n ∨ name = (n, path)) ∧
      (∀ k other, (w.register path place recursive tells).Watches k other ↔
        w.Watches k other ∨ k = n ∧ other = place) ∧
      (w.Watches n place ∧ (w.register path place recursive tells).next = w.next ∨
        n = w.next ∧ (w.register path place recursive tells).next = w.next + 1 ∧
          ∀ k, ¬ w.Watches k place) := by
  obtain ⟨made, n, hmade, hregs, hnames, hwatches, hnumber⟩ := withWatch_spec w place
    (tells || (w.registration? path).any (·.tellsRemoval)) (w.registration? path).isSome
  refine ⟨n, tells || (w.registration? path).any (·.tellsRemoval), ?_, ?_, ?_, ?_⟩
  · simp [register, hmade, hregs, forget, FilePath.same]
  · simp [register, hmade, hnames]
  · simpa only [register, hmade, Watches] using hwatches
  · simpa only [register, hmade] using hnumber

/-! ### What is registered with a path -/

theorem holds_iff : w.holds q = true ↔ ∃ r ∈ w.registrations, r.path.components = q.components := by
  unfold holds registration?
  rw [List.find?_isSome]
  simp only [FilePath.same_iff]

theorem holds_register {recursive tells : Bool} :
    (w.register path place recursive tells).holds q = true ↔
      w.holds q = true ∨ path.components = q.components := by
  obtain ⟨n, interest, hregs, -⟩ := register_spec w path place recursive tells
  simp only [holds_iff, hregs]
  constructor
  · rintro ⟨r, ⟨hr, -⟩ | rfl, hq⟩
    · exact .inl ⟨r, hr, hq⟩
    · exact .inr hq
  · rintro (⟨r, hr, hq⟩ | hq)
    · by_cases hpath : r.path.components = path.components
      · exact ⟨_, .inr rfl, hpath ▸ hq⟩
      · exact ⟨r, .inl ⟨hr, hpath⟩, hq⟩
    · exact ⟨_, .inr rfl, hq⟩

theorem holds_registerAll :
    (w.registerAll found).holds q = true ↔
      w.holds q = true ∨ ∃ f ∈ found, f.1.components = q.components := by
  induction found generalizing w with
  | nil => simp [registerAll]
  | cons f rest ih =>
    rw [registerAll, List.foldl_cons, ← registerAll, ih, holds_register]
    simp [or_assoc]

/-- What is found from a path on lies in it. -/
theorem contains_of_mem_directoriesFrom (hnamed : m.files.IsNamed) {seen : List Location}
    {f : FilePath × Location} (h : f ∈ directoriesFrom m n seen path) : path.Contains f.1 := by
  induction n generalizing seen path with
  | zero => simp [directoriesFrom] at h
  | succ n ih =>
    unfold directoriesFrom at h
    split at h
    · cases h
    · next place _ =>
      split at h
      · cases h
      · rcases List.mem_cons.1 h with rfl | hbelow
        · exact List.prefix_rfl
        · obtain ⟨name, hname, hf⟩ := List.mem_flatMap.1 hbelow
          -- the path below has one component more
          have hplain := FilePath.isPlainName_map_iff.2 (hnamed.isPlain hname)
          have hjoin := FilePath.components_join hplain path
          have hlonger := ih hf
          unfold FilePath.Contains at hlonger ⊢
          rw [hjoin] at hlonger
          exact (List.prefix_append _ _).trans hlonger

/-- If any directory is found, the first is the path itself. -/
theorem directories_cases (m : Machine) (path : FilePath) :
    directories m path = [] ∨
      ∃ place below, m.resolve path = .ok place ∧ directories m path = (path, place) :: below := by
  unfold directories directoriesFrom
  split
  · exact .inl rfl
  · next place hplace =>
    split
    · exact .inl rfl
    · exact .inr ⟨place, _, hplace, rfl⟩

/-- To register a directory is to register the directories that are found from it on. -/
theorem watch_of_found (h : directories m (m.full p) ≠ []) :
    ∃ place below, directories m (m.full p) = (m.full p, place) :: below ∧
      w.watch m p = some ((w.register (m.full p) place true true).registerAll below) := by
  rcases directories_cases m (m.full p) with hnone | ⟨place, below, hplace, hfound⟩
  · exact absurd hnone h
  · refine ⟨place, below, hfound, ?_⟩
    unfold Machine.full at *
    unfold watch
    simp only [hplace, hfound]

/-! ### Numbers, places and names -/

/-- No directory is known in two places, and no place under two paths. -/
def OneToOne (known : List (FilePath × Location)) : Prop :=
  ∀ f ∈ known, ∀ g ∈ known, f.2 = g.2 ↔ f.1.components = g.1.components

/-- Registrations, watches and names agree about the numbers, and what is registered are known
    directories. -/
structure Matches (known : List (FilePath × Location)) (w : Watcher) : Prop where
  recursive : ∀ r ∈ w.registrations, r.recursive = true
  watched : ∀ r ∈ w.registrations, ∃ place, (r.path, place) ∈ known ∧ w.Watches r.number place
  named : ∀ r ∈ w.registrations, (r.number, r.path) ∈ w.names
  registered : ∀ name ∈ w.names, ∃ r ∈ w.registrations, r.number = name.1 ∧ r.path = name.2
  /-- Each watch has a place of its own. -/
  apart : ∀ n place k other, w.Watches n place → w.Watches k other → (n = k ↔ place = other)
  fresh : ∀ n place, w.Watches n place → n < w.next

theorem matches_empty (known : List (FilePath × Location)) : Matches known .empty := by
  constructor <;> simp [Watcher.empty, Watches]

/-- A number is that of a watch, and so of a place, and so of a path. -/
theorem Matches.number_eq_iff (hw : Matches known w) (hknown : OneToOne known) {r : Registration}
    (hr : r ∈ w.registrations) (hmem : (path, place) ∈ known) (hwatch : w.Watches n place) :
    r.number = n ↔ r.path.components = path.components := by
  obtain ⟨other, hother, hwatch'⟩ := hw.watched r hr
  rw [hw.apart _ _ _ _ hwatch' hwatch]
  exact hknown _ hother _ hmem

/-- A new watch is on a place that had none, with a number that none has. -/
theorem Matches.apart_insert (hw : Matches known w)
    (hnew : w.Watches n place ∨ n = w.next ∧ ∀ k, ¬ w.Watches k place)
    (hwatch : w.Watches k other) : k = n ↔ other = place := by
  rcases hnew with hthere | ⟨rfl, hnone⟩
  · exact hw.apart _ _ _ _ hwatch hthere
  · constructor
    · rintro rfl
      exact absurd (hw.fresh _ _ hwatch) (Nat.lt_irrefl _)
    · rintro rfl
      exact absurd hwatch (hnone k)

/-- One known directory is registered. -/
theorem matches_register (hw : Matches known w) (hknown : OneToOne known)
    (hmem : (path, place) ∈ known) (tells : Bool) :
    Matches known (w.register path place true tells) := by
  obtain ⟨n, interest, hregs, hnames, hwatches, hnumber⟩ := register_spec w path place true tells
  have hinsert {k : Nat} {other : Location} (hwatch : w.Watches k other) :
      k = n ↔ other = place := by
    refine hw.apart_insert ?_ hwatch
    rcases hnumber with ⟨hthere, -⟩ | ⟨hn, -, hnone⟩
    · exact .inl hthere
    · exact .inr ⟨hn, hnone⟩
  -- an old registration keeps its number exactly if it is one of another path
  have hold {r : Registration} (hr : r ∈ w.registrations) :
      r.number = n ↔ r.path.components = path.components := by
    obtain ⟨other, hother, hwatch⟩ := hw.watched r hr
    rw [hinsert hwatch]
    exact hknown _ hother _ hmem
  constructor
  case recursive =>
    intro r hr
    rcases (hregs r).1 hr with ⟨hr, -⟩ | rfl
    · exact hw.recursive r hr
    · rfl
  case watched =>
    intro r hr
    rcases (hregs r).1 hr with ⟨hr, -⟩ | rfl
    · obtain ⟨other, hother, hwatch⟩ := hw.watched r hr
      exact ⟨other, hother, (hwatches _ _).2 (.inl hwatch)⟩
    · exact ⟨place, hmem, (hwatches _ _).2 (.inr ⟨rfl, rfl⟩)⟩
  case named =>
    intro r hr
    rw [hnames]
    rcases (hregs r).1 hr with ⟨hr, hne⟩ | rfl
    · exact .inl ⟨hw.named r hr, fun heq => hne ((hold hr).1 heq)⟩
    · exact .inr rfl
  case registered =>
    intro name hname
    rcases (hnames name).1 hname with ⟨hname, hne⟩ | rfl
    · obtain ⟨r, hr, hn, hpath⟩ := hw.registered name hname
      refine ⟨r, (hregs r).2 (.inl ⟨hr, fun heq => ?_⟩), hn, hpath⟩
      exact hne (hn ▸ (hold hr).2 heq)
    · exact ⟨_, (hregs _).2 (.inr rfl), rfl, rfl⟩
  case apart =>
    intro k other k' other' hwatch hwatch'
    rcases (hwatches _ _).1 hwatch with hold₁ | ⟨rfl, rfl⟩ <;>
      rcases (hwatches _ _).1 hwatch' with hold₂ | ⟨rfl, rfl⟩
    · exact hw.apart _ _ _ _ hold₁ hold₂
    · exact hinsert hold₁
    · rw [eq_comm, hinsert hold₂, eq_comm]
    · simp
  case fresh =>
    intro k other hwatch
    rcases (hwatches _ _).1 hwatch with hwatch | ⟨rfl, rfl⟩
    · have := hw.fresh _ _ hwatch
      rcases hnumber with ⟨-, hnext⟩ | ⟨-, hnext, -⟩ <;> omega
    · rcases hnumber with ⟨hthere, hnext⟩ | ⟨hn, hnext, -⟩
      · rw [hnext]
        exact hw.fresh _ _ hthere
      · omega

theorem matches_registerAll (hw : Matches known w) (hknown : OneToOne known)
    (hfound : ∀ f ∈ found, f ∈ known) : Matches known (w.registerAll found) := by
  induction found generalizing w with
  | nil => exact hw
  | cons f rest ih =>
    rw [registerAll, List.foldl_cons, ← registerAll]
    refine ih (matches_register hw hknown ?_ false) fun g hg => hfound g (by simp [hg])
    exact hfound f (by simp)

/-! ### Removing -/

/-- The watcher without a number and the path that goes with it. -/
def discard (w : Watcher) (name : Nat × FilePath) : Watcher :=
  (w.release name.1).forget name.2

/-- The number is that of the path, in every registration that is left. -/
def Belongs (w : Watcher) (name : Nat × FilePath) : Prop :=
  ∀ r ∈ w.registrations, r.number = name.1 ↔ r.path.components = name.2.components

variable {name : Nat × FilePath} {names : List (Nat × FilePath)}

theorem mem_discard {r : Registration} :
    r ∈ (w.discard name).registrations ↔
      r ∈ w.registrations ∧ r.path.components ≠ name.2.components := by
  simp [discard, release, forget, FilePath.same]

theorem watches_discard :
    (w.discard name).Watches k other ↔ w.Watches k other ∧ k ≠ name.1 := by
  unfold Watches discard release forget
  simp only [List.mem_filter, decide_eq_true_eq]
  constructor
  · rintro ⟨v, ⟨hv, hne⟩, rfl, rfl⟩
    exact ⟨⟨v, hv, rfl, rfl⟩, hne⟩
  · rintro ⟨⟨v, hv, rfl, rfl⟩, hne⟩
    exact ⟨v, ⟨hv, hne⟩, rfl, rfl⟩

/-- A number is taken out with its path. -/
theorem matches_discard (hw : Matches known w) (hname : w.Belongs name) :
    Matches known (w.discard name) := by
  have hnames {other : Nat × FilePath} :
      other ∈ (w.discard name).names ↔ other ∈ w.names ∧ other.1 ≠ name.1 := by
    simp [discard, release, forget]
  constructor
  case recursive => exact fun r hr => hw.recursive r (mem_discard.1 hr).1
  case watched =>
    intro r hr
    obtain ⟨hr, hne⟩ := mem_discard.1 hr
    obtain ⟨other, hother, hwatch⟩ := hw.watched r hr
    exact ⟨other, hother, watches_discard.2 ⟨hwatch, fun heq => hne ((hname r hr).1 heq)⟩⟩
  case named =>
    intro r hr
    obtain ⟨hr, hne⟩ := mem_discard.1 hr
    exact hnames.2 ⟨hw.named r hr, fun heq => hne ((hname r hr).1 heq)⟩
  case registered =>
    intro other hother
    obtain ⟨hother, hne⟩ := hnames.1 hother
    obtain ⟨r, hr, hn, hpath⟩ := hw.registered other hother
    exact ⟨r, mem_discard.2 ⟨hr, fun heq => hne (hn ▸ (hname r hr).2 heq)⟩, hn, hpath⟩
  case apart =>
    intro k other k' other' hwatch hwatch'
    exact hw.apart _ _ _ _ (watches_discard.1 hwatch).1 (watches_discard.1 hwatch').1
  case fresh => exact fun k other hwatch => hw.fresh _ _ (watches_discard.1 hwatch).1

theorem foldl_discard (hw : Matches known w) (hnames : ∀ name ∈ names, w.Belongs name) :
    Matches known (names.foldl discard w) ∧
      ∀ r, r ∈ (names.foldl discard w).registrations ↔
        r ∈ w.registrations ∧ ∀ name ∈ names, r.path.components ≠ name.2.components := by
  induction names generalizing w with
  | nil => simpa using hw
  | cons name rest ih =>
    have hrest : ∀ other ∈ rest, (w.discard name).Belongs other :=
      fun other hother r hr => hnames other (by simp [hother]) r (mem_discard.1 hr).1
    obtain ⟨hmatches, hleft⟩ := ih (matches_discard hw (hnames name (by simp))) hrest
    refine ⟨hmatches, fun r => ?_⟩
    rw [List.foldl_cons, hleft, mem_discard, and_assoc, List.forall_mem_cons]

/-- What a watch is reported under is the path of its registration. -/
theorem Matches.belongs (hw : Matches known w) (hknown : OneToOne known) (hname : name ∈ w.names) :
    w.Belongs name := by
  obtain ⟨s, hs, hn, hpath⟩ := hw.registered name hname
  obtain ⟨place, hmem, hwatch⟩ := hw.watched s hs
  intro r hr
  rw [← hn, ← hpath]
  exact hw.number_eq_iff hknown hr hmem hwatch

/-- What lies in a path is removed without fail, as none of the watches has ended. -/
theorem removeBelow_spec (hw : Matches known w) (hknown : OneToOne known) (path : FilePath) :
    (w.removeBelow path).2 = true ∧ Matches known (w.removeBelow path).1 ∧
      ∀ r, r ∈ (w.removeBelow path).1.registrations ↔
        r ∈ w.registrations ∧ ¬ path.Contains r.path := by
  -- every name is that of a registration, and every registration has a watch
  have hall : (w.names.filter (·.2.startsWith path)).all (fun name => w.lasts name.1) = true := by
    rw [List.all_eq_true]
    intro name hname
    obtain ⟨r, hr, hn, -⟩ := hw.registered name (List.mem_of_mem_filter hname)
    obtain ⟨place, -, hwatch⟩ := hw.watched r hr
    exact hn ▸ lasts_iff.2 ⟨place, hwatch⟩
  have hremove : w.removeBelow path =
      ((w.names.filter (·.2.startsWith path)).foldl discard w, true) := if_pos hall
  have hbelong : ∀ name ∈ w.names.filter (·.2.startsWith path), w.Belongs name :=
    fun name hname => hw.belongs hknown (List.mem_of_mem_filter hname)
  obtain ⟨hmatches, hleft⟩ := foldl_discard hw hbelong
  rw [hremove]
  refine ⟨rfl, hmatches, fun r => ?_⟩
  rw [hleft, and_congr_right_iff]
  intro hr
  constructor
  · intro hnot hin
    exact hnot _ (List.mem_filter.2 ⟨hw.named r hr, FilePath.startsWith_iff.2 hin⟩) rfl
  · intro hout name hname heq
    refine hout ?_
    rw [FilePath.Contains, heq]
    exact FilePath.startsWith_iff.1 (List.mem_filter.1 hname).2

/-- To remove a registered path goes well, and takes out what lies in it. -/
theorem remove_of_holds (hw : Matches known w) (hknown : OneToOne known)
    (hheld : w.holds path = true) :
    (w.remove path false).2 = true ∧ Matches known (w.remove path false).1 ∧
      ∀ r, r ∈ (w.remove path false).1.registrations ↔
        r ∈ w.registrations ∧ ¬ path.Contains r.path := by
  obtain ⟨s, hs⟩ := Option.isSome_iff_exists.1 hheld
  obtain ⟨hsame, hmem⟩ : s.path.components = path.components ∧ s ∈ w.registrations := by
    unfold registration? at hs
    exact ⟨FilePath.same_iff.1 (by simpa using List.find?_some hs), List.mem_of_find?_eq_some hs⟩
  -- the path may be spelled otherwise than the registration that goes with it
  have hbelongs : w.Belongs (s.number, path) := by
    intro r hr
    rw [hw.belongs hknown (hw.named s hmem) r hr, hsame]
  obtain ⟨place, -, hwatch⟩ := hw.watched s hmem
  have hlasts : (w.forget path).lasts s.number = true := lasts_iff.2 ⟨place, hwatch⟩
  have hremove : w.remove path false = (w.discard (s.number, path)).removeBelow path := by
    unfold remove
    rw [hs]
    simp only [hlasts, if_true, hw.recursive s hmem, Bool.true_or]
    rfl
  obtain ⟨hwell, hmatches, hleft⟩ := removeBelow_spec (matches_discard hw hbelongs) hknown path
  rw [hremove]
  refine ⟨hwell, hmatches, fun r => ?_⟩
  rw [hleft, mem_discard, and_assoc]
  refine and_congr_right fun _ => and_iff_right_of_imp fun hout heq => hout ?_
  exact FilePath.contains_of_components_eq heq.symm

/-! ### Directories that lie apart -/

/-- The directories at and below some paths. -/
def allDirectories (m : Machine) (dirs : List FilePath) : List (FilePath × Location) :=
  dirs.flatMap fun p => directories m (m.full p)

/-- The paths are those of directories that exist. No place is found below two of them, or twice
    below one, and none of them lies in another unless the two are one path. -/
structure Apart (m : Machine) (dirs : List FilePath) : Prop where
  named : m.files.IsNamed
  found : ∀ p ∈ dirs, directories m (m.full p) ≠ []
  oneToOne : OneToOne (allDirectories m dirs)
  outside : ∀ p ∈ dirs, ∀ f ∈ directories m (m.full p), ∀ q ∈ dirs,
    (m.full q).Contains f.1 → m.Agree p q

/-- Of paths that lie apart, each lies in itself only. -/
theorem Apart.contains_iff (hapart : Apart m dirs) (hp : p ∈ dirs) (hq : q ∈ dirs) :
    (m.full p).Contains (m.full q) ↔ m.Agree q p := by
  constructor
  · intro hin
    rcases directories_cases m (m.full q) with hnone | ⟨place, below, -, hfound⟩
    · exact absurd hnone (hapart.found q hq)
    · exact hapart.outside q hq (m.full q, place) (by simp [hfound]) p hp hin
  · intro hagree
    exact FilePath.contains_of_components_eq hagree.symm

/-- The watcher agrees with itself, and whatever is registered lies in held paths only. -/
structure IsSet (m : Machine) (dirs : List FilePath) (w : Watcher) : Prop where
  agrees : Matches (allDirectories m dirs) w
  held : ∀ r ∈ w.registrations, ∀ p ∈ dirs, (m.full p).Contains r.path → w.Holds m p

/-- To register a path adds it to the set. -/
theorem IsSet.watch (hapart : Apart m dirs) (hw : IsSet m dirs w) (hp : p ∈ dirs) :
    ∃ w', w.watch m p = some w' ∧ IsSet m dirs w' ∧
      ∀ q ∈ dirs, w'.Holds m q ↔ w.Holds m q ∨ m.Agree q p := by
  obtain ⟨place, below, hfound, hwatch⟩ := watch_of_found (w := w) (hapart.found p hp)
  have hknown : ∀ f ∈ (m.full p, place) :: below, f ∈ allDirectories m dirs :=
    fun f hf => List.mem_flatMap.2 ⟨p, hp, by rwa [hfound]⟩
  have hholds (q : FilePath) :
      ((w.register (m.full p) place true true).registerAll below).holds q = true ↔
        w.holds q = true ∨ ∃ f ∈ directories m (m.full p), f.1.components = q.components := by
    rw [holds_registerAll, holds_register, hfound]
    simp [or_assoc]
  have hadds : ∀ q ∈ dirs, ((w.register (m.full p) place true true).registerAll below).Holds m q ↔
      w.Holds m q ∨ m.Agree q p := by
    intro q hq
    unfold Holds
    rw [hholds]
    refine or_congr_right ⟨?_, fun hagree => ⟨(m.full p, place), by simp [hfound], hagree.symm⟩⟩
    rintro ⟨f, hf, heq⟩
    refine (hapart.outside p hp f hf q hq ?_).symm
    exact FilePath.contains_of_components_eq heq.symm
  refine ⟨_, hwatch, ⟨?_, ?_⟩, hadds⟩
  case refine_1 =>
    refine matches_registerAll (matches_register hw.agrees hapart.oneToOne ?_ true)
      hapart.oneToOne fun f hf => hknown f (by simp [hf])
    exact hknown _ List.mem_cons_self
  case refine_2 =>
    intro r hr q hq hin
    rw [hadds q hq]
    -- what was not registered before is found from the path on
    rcases (hholds r.path).1 (holds_iff.2 ⟨r, hr, rfl⟩) with hold | ⟨f, hf, heq⟩
    · obtain ⟨s, hs, heq⟩ := holds_iff.1 hold
      refine .inl (hw.held s hs q hq ?_)
      rwa [FilePath.Contains, heq]
    · refine .inr (hapart.outside p hp f hf q hq ?_).symm
      rwa [FilePath.Contains, heq]

/-- To remove a path takes it out of the set. -/
theorem IsSet.unwatch (hapart : Apart m dirs) (hw : IsSet m dirs w) (hp : p ∈ dirs) :
    ((w.unwatch m p).2 = true ↔ w.Holds m p) ∧ IsSet m dirs (w.unwatch m p).1 ∧
      ∀ q ∈ dirs, (w.unwatch m p).1.Holds m q ↔ w.Holds m q ∧ ¬ m.Agree q p := by
  have hremove : w.unwatch m p = w.remove (m.full p) false := rfl
  rw [hremove]
  by_cases hheld : w.Holds m p
  · obtain ⟨hwell, hmatches, hleft⟩ := remove_of_holds hw.agrees hapart.oneToOne hheld
    have htakes : ∀ q ∈ dirs,
        (w.remove (m.full p) false).1.Holds m q ↔ w.Holds m q ∧ ¬ m.Agree q p := by
      intro q hq
      rw [← hapart.contains_iff hp hq]
      unfold Holds
      rw [holds_iff, holds_iff, ← exists_and_right]
      refine exists_congr fun r => ?_
      rw [hleft, and_assoc, and_assoc, and_comm (a := ¬ _)]
      refine and_congr_right fun _ => and_congr_right fun heq => ?_
      rw [FilePath.Contains, FilePath.Contains, heq]
    refine ⟨iff_of_true hwell hheld, ⟨hmatches, ?_⟩, htakes⟩
    intro r hr q hq hin
    obtain ⟨hr, hout⟩ := (hleft r).1 hr
    refine (htakes q hq).2 ⟨hw.held r hr q hq hin, fun hagree => hout ?_⟩
    rwa [FilePath.Contains, ← hagree]
  · -- nothing is done about a path that is not registered
    have hnone : w.remove (m.full p) false = (w, false) := by
      have : w.registration? (m.full p) = none := by simpa [Holds, holds] using hheld
      rw [remove, this]
    rw [hnone]
    refine ⟨iff_of_false Bool.false_ne_true hheld, hw, fun q hq => ?_⟩
    refine (and_iff_left_of_imp fun hq hagree => hheld ?_).symm
    rw [Holds, holds_iff] at hq ⊢
    rwa [← hagree]

theorem isSet_of_made (hapart : Apart m dirs) (hw : Made m dirs w) : IsSet m dirs w := by
  induction hw with
  | empty => exact ⟨matches_empty _, by simp [Watcher.empty]⟩
  | watch _ hp hwatch ih =>
    obtain ⟨w', hw', hset, -⟩ := ih.watch hapart hp
    obtain rfl := Option.some.inj (hwatch.symm.trans hw')
    exact hset
  | unwatch _ hp ih => exact (ih.unwatch hapart hp).2.1

/-- Of directories that lie apart the watcher keeps a set. -/
theorem keepsPaths_of_apart (hapart : Apart m dirs) : KeepsPaths m dirs where
  watch hw hp := by
    obtain ⟨w', hw', -, hadds⟩ := (isSet_of_made hapart hw).watch hapart hp
    exact ⟨w', hw', hadds⟩
  unwatch hw hp := by
    obtain ⟨hwell, -, htakes⟩ := (isSet_of_made hapart hw).unwatch hapart hp
    exact ⟨hwell, htakes⟩
  below hw hr := by
    have hset := isSet_of_made hapart hw
    obtain ⟨place, hplace, -⟩ := hset.agrees.watched _ hr
    obtain ⟨p, hp, hfound⟩ := List.mem_flatMap.1 hplace
    have hin := contains_of_mem_directoriesFrom hapart.named hfound
    exact ⟨p, hp, hset.held _ hr p hp hin, hin⟩

end Watcher

end Hosting
