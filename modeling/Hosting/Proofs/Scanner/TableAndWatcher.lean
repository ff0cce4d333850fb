import Hosting.Scanner.Basic
import Hosting.Proofs.Scanner.PathSets

/-! # The table of a scanner and its watcher

    The table is kept by context, and the watcher by path. A call takes the root away that its
    context had, and the watcher is told so whoever else may have that root. So the two stay in
    step exactly as long as no call gives up a root that is still somebody's after it: one root
    for two contexts does no harm until the first of the two leaves it.

    - `call_spec`: all that a call does to the table and to the set of watched paths.
    - `InStep`: exactly the roots in the table are watched.
    - `Respects`: the call goes well, and takes no report of a change from another context
      outside the root that is watched from now on.
    - `GivesUpOwn`: what the call gives up is nobody's root any more.
    - `inStep_call_iff`, `respects_call`: one call.
    - `in_step_iff_gives_up_own`: any sequence of calls, and `shared_root_is_lost`: two contexts
      with one directory.
-/

namespace Hosting

/-- If the deepest of some roots is kept, it is the deepest of those kept. -/
theorem Roots.deepest_filter {roots : Roots} {root : FilePath × ContextPath}
    {keeps : FilePath × ContextPath → Bool} (h : roots.deepest = some root)
    (hkeeps : keeps root = true) : deepest (roots.filter keeps) = some root := by
  induction roots generalizing root with
  | nil => simp [deepest] at h
  | cons head rest ih =>
    rw [deepest] at h
    split at h
    · next hnone =>
      obtain rfl := deepest_eq_none_iff.1 hnone
      obtain rfl := Option.some.inj h
      simp [hkeeps, deepest]
    · next best hbest =>
      split at h
      · next hlt =>
        -- the head beats whatever is kept of the rest
        obtain rfl := Option.some.inj h
        rw [List.filter_cons_of_pos hkeeps, deepest]
        split
        · rfl
        · next other hother =>
          have hmem := List.mem_of_mem_filter (deepest_spec hother).1
          have hle := (deepest_spec hbest).2 other hmem
          rw [if_pos (by omega)]
      · next hle =>
        obtain rfl := Option.some.inj h
        rw [List.filter_cons]
        split
        · rw [deepest, ih hbest hkeeps]
          exact if_neg hle
        · exact ih hbest hkeeps

namespace Scanner

open Watcher

variable {m : Machine} {dirs : List FilePath} {s : Scanner} {c : ContextPath}

/-! ### Calls -/

/-- What a scanner is told to do. -/
inductive Call where
  | watch (context : ContextPath) (root : FilePath)
  | unwatch (context : ContextPath)
deriving DecidableEq, Repr

/-- The context that is watched for. -/
def Call.context : Call → ContextPath
  | .watch context _ => context
  | .unwatch context => context

/-- The root that is watched from now on. -/
def Call.root? : Call → Option FilePath
  | .watch _ root => some root
  | .unwatch _ => none

/-- The scanner after a call, and what comes of it. -/
def call (s : Scanner) (m : Machine) : Call → Scanner × Except ScanFailure Unit
  | .watch context root => s.watch m context root
  | .unwatch context => s.unwatch m context

/-- Each call of a sequence has the property in the scanner that it finds. -/
def Along (m : Machine) (P : Scanner → Call → Prop) : Scanner → List Call → Prop
  | _, [] => True
  | s, call :: rest => P s call ∧ Along m P (s.call m call).1 rest

/-- The root that a call gives up: that of the context, unless it is the one to watch. -/
def givenUp? (s : Scanner) : Call → Option FilePath
  | .watch context root => (s.rootOf? context).filter fun old => !old.same root
  | .unwatch context => s.rootOf? context

/-- A change at the path is told to the context: of the roots above, its root is the deepest, and
    that is watched. -/
def Tells (m : Machine) (s : Scanner) (path : FilePath) (context : ContextPath) : Prop :=
  ∃ root ∈ (s.roots.above path).deepest, root.2 = context ∧ s.watcher.Holds m root.1

/-- The table and the watcher are in step. -/
structure InStep (m : Machine) (dirs : List FilePath) (s : Scanner) : Prop where
  /-- A context has one root at most. -/
  single : s.watched.Nodup
  held : ∀ root ∈ s.roots, s.watcher.Holds m root.1
  /-- Of the paths no other is watched, -/
  only : ∀ p ∈ dirs, s.watcher.Holds m p → ∃ root ∈ s.roots, m.Agree p root.1
  /-- and nothing is registered besides the roots and what lies in them. -/
  inside : ∀ r ∈ s.watcher.registrations, ∃ root ∈ s.roots, (m.full root.1).Contains r.path

/-- The call does not fail, and other contexts are told what they were told before it, unless it
    happens in the root that is watched from now on. -/
structure Respects (m : Machine) (s : Scanner) (call : Call) : Prop where
  succeeds : (s.call m call).2 = .ok ()
  others : ∀ path context, context ≠ call.context → (∀ root ∈ call.root?, ¬ root.Contains path) →
    s.Tells m path context → (s.call m call).1.Tells m path context

/-- The root that the call gives up is nobody's after it. -/
def GivesUpOwn (m : Machine) (s : Scanner) (call : Call) : Prop :=
  ∀ old ∈ s.givenUp? call, ∀ root ∈ (s.call m call).1.roots, ¬ m.Agree root.1 old

instance (m : Machine) (s : Scanner) (path : FilePath) (context : ContextPath) :
    Decidable (s.Tells m path context) :=
  inferInstanceAs (Decidable (∃ root ∈ (s.roots.above path).deepest, _ ∧ _))

instance (m : Machine) (s : Scanner) (call : Call) : Decidable (s.GivesUpOwn m call) :=
  inferInstanceAs (Decidable (∀ old ∈ s.givenUp? call, ∀ root ∈ (s.call m call).1.roots,
    ¬ m.Agree root.1 old))

instance decidableAlong (m : Machine) (P : Scanner → Call → Prop)
    [∀ s call, Decidable (P s call)] : ∀ s calls, Decidable (Along m P s calls)
  | _, [] => isTrue trivial
  | s, call :: rest =>
    have := decidableAlong m P (s.call m call).1 rest
    inferInstanceAs (Decidable (P s call ∧ Along m P (s.call m call).1 rest))

/-! ### What a call does -/

/-- What the table has of a context. -/
theorem mem_roots_of_rootOf? {p : FilePath} (h : s.rootOf? c = some p) : (p, c) ∈ s.roots := by
  obtain ⟨⟨p', c'⟩, hfind, rfl⟩ := Option.map_eq_some_iff.1 h
  obtain rfl : c' = c := by simpa using List.find?_some hfind
  exact List.mem_of_find?_eq_some hfind

/-- The roots that are removed for a context are one at most. -/
theorem rootsOf_eq (hs : s.watched.Nodup) (c : ContextPath) :
    (s.roots.filter (·.2 = c)).map (·.1) = (s.rootOf? c).toList := by
  unfold watched at hs
  unfold rootOf?
  generalize s.roots = roots at hs
  induction roots with
  | nil => rfl
  | cons head rest ih =>
    rw [List.map_cons, List.nodup_cons] at hs
    by_cases hhead : head.2 = c
    · -- the first one for the context is the only one
      have hrest : rest.filter (·.2 = c) = [] := by
        rw [List.filter_eq_nil_iff]
        intro other hother heq
        refine hs.1 (List.mem_map.2 ⟨other, hother, ?_⟩)
        rw [hhead, of_decide_eq_true heq]
      rw [List.filter_cons_of_pos (by simpa using hhead), hrest,
        List.find?_cons_of_pos (by simpa using hhead)]
      rfl
    · rw [List.filter_cons_of_neg (by simpa using hhead),
        List.find?_cons_of_neg (by simpa using hhead)]
      exact ih hs.2

theorem rootOf?_of_mem_roots (hs : s.watched.Nodup) {root : FilePath × ContextPath}
    (h : root ∈ s.roots) : s.rootOf? root.2 = some root.1 := by
  have hmem : root.1 ∈ (s.roots.filter (·.2 = root.2)).map (·.1) :=
    List.mem_map_of_mem (List.mem_filter.2 ⟨h, by simp⟩)
  rw [rootsOf_eq hs] at hmem
  exact Option.mem_toList.1 hmem

/-- What is true of a scanner whatever it was told: its watcher knows of its roots only by way of
    calls, and the table has one root for a context. -/
structure IsKept (m : Machine) (dirs : List FilePath) (s : Scanner) : Prop where
  made : Made m dirs s.watcher
  single : s.watched.Nodup
  known : ∀ root ∈ s.roots, root.1 ∈ dirs

/-- All that a call does that is not idle: it moves its context to another root, or to none. -/
structure Moves (m : Machine) (dirs : List FilePath) (s : Scanner) (call : Call) : Prop where
  gives : s.givenUp? call = s.rootOf? call.context
  made : Made m dirs (s.call m call).1.watcher
  roots : (s.call m call).1.roots =
    s.roots.filter (·.2 ≠ call.context) ++ call.root?.toList.map (·, call.context)
  holds : ∀ p ∈ dirs, (s.call m call).1.watcher.Holds m p ↔
    (s.watcher.Holds m p ∨ ∃ root ∈ call.root?, m.Agree p root) ∧
      ∀ old ∈ s.givenUp? call, ¬ m.Agree p old
  succeeds : (∀ old ∈ s.givenUp? call, s.watcher.Holds m old) → (s.call m call).2 = .ok ()

variable {call : Call}

/-- A root is watched in place of the one that the context had. -/
theorem watch_spec (hkeeps : KeepsPaths m dirs) (hs : IsKept m dirs s) {root : FilePath}
    (hroot : root ∈ dirs) (hnew : (s.rootOf? c).any (·.same root) = false) :
    ∃ w, s.watch m c root = ({ s with watcher := w }.enter c root, .ok ()) ∧ Made m dirs w ∧
      ∀ p ∈ dirs, w.Holds m p ↔
        (s.watcher.Holds m p ∨ m.Agree p root) ∧ ∀ old ∈ s.rootOf? c, ¬ m.Agree p old := by
  obtain ⟨w, hwatch, hadds⟩ := hkeeps.watch hs.made hroot
  have hmade := hs.made.watch hroot hwatch
  cases hprevious : s.rootOf? c with
  | none =>
    refine ⟨w, by simp [watch, hprevious, hwatch], hmade, fun p hp => ?_⟩
    simpa using hadds p hp
  | some old =>
    have hold : old ∈ dirs := hs.known _ (mem_roots_of_rootOf? hprevious)
    rw [hprevious] at hnew
    have hnew : old.same root = false := hnew
    refine ⟨(w.unwatch m old).1, by simp [watch, hprevious, hwatch, hnew, drop],
      hmade.unwatch hold, fun p hp => ?_⟩
    rw [(hkeeps.unwatch hmade hold).2 p hp, hadds p hp]
    simp

/-- The root of the context, if any, is no longer watched. -/
theorem unwatch_spec (hkeeps : KeepsPaths m dirs) (hs : IsKept m dirs s) (c : ContextPath) :
    ∃ w, (s.unwatch m c).1 = { s with watcher := w, roots := s.roots.filter (·.2 ≠ c) } ∧
      Made m dirs w ∧
      (∀ p ∈ dirs, w.Holds m p ↔ s.watcher.Holds m p ∧ ∀ old ∈ s.rootOf? c, ¬ m.Agree p old) ∧
      ((∀ old ∈ s.rootOf? c, s.watcher.Holds m old) → (s.unwatch m c).2 = .ok ()) := by
  have hunwatch : s.unwatch m c =
      { s with roots := s.roots.filter (·.2 ≠ c) }.dropAll m (s.rootOf? c).toList := by
    rw [unwatch, rootsOf_eq hs.single]
  rw [hunwatch]
  cases hprevious : s.rootOf? c with
  | none => exact ⟨s.watcher, rfl, hs.made, by simp, fun _ => rfl⟩
  | some old =>
    have hold : old ∈ dirs := hs.known _ (mem_roots_of_rootOf? hprevious)
    obtain ⟨hwell, htakes⟩ := hkeeps.unwatch hs.made hold
    refine ⟨(s.watcher.unwatch m old).1, ?_, hs.made.unwatch hold, by simpa using htakes, ?_⟩
    · simp only [Option.toList_some, dropAll]
      split <;> rfl
    · intro hheld
      have hwell := hwell.2 (hheld old rfl)
      simp only [Option.toList_some, dropAll]
      exact congrArg Prod.snd (if_pos hwell)

/-- A call is idle or moves its context. -/
theorem call_spec (hkeeps : KeepsPaths m dirs) (hs : IsKept m dirs s)
    (hcall : ∀ root ∈ call.root?, root ∈ dirs) :
    (s.givenUp? call = none ∧ s.call m call = (s, .ok ())) ∨ Moves m dirs s call := by
  cases call with
  | watch c root =>
    by_cases hnew : (s.rootOf? c).any (·.same root) = false
    · obtain ⟨w, hwatch, hmade, hholds⟩ := watch_spec hkeeps hs (hcall root rfl) hnew
      have hcalled : s.call m (.watch c root) = _ := hwatch
      have hgives : s.givenUp? (.watch c root) = s.rootOf? c := by
        rw [givenUp?]
        cases hprevious : s.rootOf? c with
        | none => rfl
        | some old =>
          rw [hprevious, Option.any_some] at hnew
          rw [Option.filter_some, hnew]
          rfl
      refine .inr ⟨hgives, ?_, ?_, ?_, ?_⟩ <;> rw [hcalled]
      · exact hmade
      · rfl
      · simpa [hgives, enter, Call.root?] using hholds
      · exact fun _ => rfl
    · refine .inl ⟨?_, by simp [call, watch, hnew]⟩
      rw [Bool.not_eq_false, Option.any_eq_true] at hnew
      obtain ⟨old, hprevious, hsame⟩ := hnew
      rw [givenUp?, hprevious, Option.filter_some, hsame]
      rfl
  | unwatch c =>
    obtain ⟨w, hafter, hmade, hholds, hwell⟩ := unwatch_spec hkeeps hs c
    have hcalled : (s.call m (.unwatch c)).1 = _ := hafter
    refine .inr ⟨rfl, ?_, ?_, ?_, hwell⟩ <;> rw [hcalled]
    · exact hmade
    · exact (List.append_nil _).symm
    · simpa [Call.root?, givenUp?] using hholds

theorem Moves.mem_roots (hmoves : Moves m dirs s call) {root : FilePath × ContextPath} :
    root ∈ (s.call m call).1.roots ↔
      root ∈ s.roots ∧ root.2 ≠ call.context ∨ ∃ p ∈ call.root?, (p, call.context) = root := by
  rw [hmoves.roots, List.mem_append, List.mem_filter, decide_eq_true_eq, List.mem_map]
  simp only [Option.mem_toList, Option.mem_def]

/-! ### One call -/

/-- Whatever is called, the table keeps one root for a context. -/
theorem isKept_call (hkeeps : KeepsPaths m dirs) (hs : IsKept m dirs s)
    (hcall : ∀ root ∈ call.root?, root ∈ dirs) : IsKept m dirs (s.call m call).1 := by
  rcases call_spec hkeeps hs hcall with ⟨-, hidle⟩ | hmoves
  · rw [hidle]
    exact hs
  · refine ⟨hmoves.made, ?_, ?_⟩
    · -- what the context had is taken out before it gets another root
      have hothers : ((s.roots.filter (·.2 ≠ call.context)).map (·.2)).Nodup :=
        hs.single.sublist (List.filter_sublist.map _)
      unfold watched
      rw [hmoves.roots, List.map_append]
      cases call.root? with
      | none => simpa using hothers
      | some p =>
        refine List.nodup_append.2 ⟨hothers, by simp, ?_⟩
        intro context hold context' hnew
        obtain ⟨root, hroot, rfl⟩ := List.mem_map.1 hold
        obtain rfl := List.mem_singleton.1 hnew
        exact of_decide_eq_true (List.mem_filter.1 hroot).2
    · intro root hroot
      rcases hmoves.mem_roots.1 hroot with ⟨hold, -⟩ | ⟨p, hp, rfl⟩
      · exact hs.known root hold
      · exact hcall p hp

/-- If what a call gives up is nobody's root any more, exactly the roots are watched after it as
    they were before. -/
theorem Moves.inStep (hmoves : Moves m dirs s call) (hkeeps : KeepsPaths m dirs)
    (hs : IsKept m dirs s) (hkept : IsKept m dirs (s.call m call).1) (hstep : InStep m dirs s)
    (hown : s.GivesUpOwn m call) : InStep m dirs (s.call m call).1 := by
  have honly : ∀ p ∈ dirs, (s.call m call).1.watcher.Holds m p →
      ∃ root ∈ (s.call m call).1.roots, m.Agree p root.1 := by
    intro p hp hheld
    obtain ⟨hbefore | ⟨new, hnew, hagree⟩, hnot⟩ := (hmoves.holds p hp).1 hheld
    · obtain ⟨root, hroot, hagree⟩ := hstep.only p hp hbefore
      refine ⟨root, hmoves.mem_roots.2 (.inl ⟨hroot, fun heq => ?_⟩), hagree⟩
      -- what the context had is given up, so it is not watched
      refine hnot root.1 ?_ hagree
      rw [hmoves.gives, ← heq]
      exact rootOf?_of_mem_roots hs.single hroot
    · exact ⟨_, hmoves.mem_roots.2 (.inr ⟨new, hnew, rfl⟩), hagree⟩
  refine ⟨hkept.single, ?_, honly, ?_⟩
  · intro root hroot
    refine (hmoves.holds _ (hkept.known root hroot)).2
      ⟨?_, fun old hold => hown old hold root hroot⟩
    rcases hmoves.mem_roots.1 hroot with ⟨hold, -⟩ | ⟨p, hp, rfl⟩
    · exact .inl (hstep.held root hold)
    · exact .inr ⟨p, hp, rfl⟩
  · intro r hr
    obtain ⟨p, hp, hheld, hin⟩ := hkeeps.below hkept.made hr
    obtain ⟨root, hroot, hagree⟩ := honly p hp hheld
    refine ⟨root, hroot, ?_⟩
    rwa [FilePath.Contains, ← hagree]

/-- A call keeps the table and the watcher in step exactly if what it gives up is nobody's root
    any more. -/
theorem inStep_call_iff (hkeeps : KeepsPaths m dirs) (hs : IsKept m dirs s)
    (hstep : InStep m dirs s) (hcall : ∀ root ∈ call.root?, root ∈ dirs) :
    InStep m dirs (s.call m call).1 ↔ s.GivesUpOwn m call := by
  have hkept := isKept_call hkeeps hs hcall
  rcases call_spec hkeeps hs hcall with ⟨hgives, hidle⟩ | hmoves
  · unfold GivesUpOwn
    rw [hgives, hidle]
    simpa using hstep
  · refine ⟨fun hafter old hold root hroot => ?_, hmoves.inStep hkeeps hs hkept hstep⟩
    exact ((hmoves.holds _ (hkept.known root hroot)).1 (hafter.held root hroot)).2 old hold

/-- From a table and a watcher that are in step, a call goes well. If what it gives up is nobody's
    root any more, the others are told what they were told before. -/
theorem respects_call (hkeeps : KeepsPaths m dirs) (hs : IsKept m dirs s)
    (hstep : InStep m dirs s) (hcall : ∀ root ∈ call.root?, root ∈ dirs)
    (hown : s.GivesUpOwn m call) : s.Respects m call := by
  rcases call_spec hkeeps hs hcall with ⟨-, hidle⟩ | hmoves
  · refine ⟨by rw [hidle], ?_⟩
    rw [hidle]
    exact fun _ _ _ _ htells => htells
  · refine ⟨hmoves.succeeds fun old hold => ?_, ?_⟩
    · rw [hmoves.gives] at hold
      exact hstep.held (old, call.context) (mem_roots_of_rootOf? hold)
    · rintro path context hother houtside ⟨root, hdeepest, rfl, -⟩
      obtain ⟨hroot, -⟩ := Roots.mem_above_iff.1 (Roots.deepest_spec hdeepest).1
      have hafter := hmoves.mem_roots.2 (.inl ⟨hroot, hother⟩)
      have hstep' := hmoves.inStep hkeeps hs (isKept_call hkeeps hs hcall) hstep hown
      refine ⟨root, ?_, rfl, hstep'.held root hafter⟩
      -- above the path stand the roots that stood there before, without those of the context
      have hnew : (call.root?.toList.map (·, call.context)).filter
          (fun root => path.startsWith root.1) = [] := by
        rw [List.filter_eq_nil_iff]
        intro other hmem hin
        obtain ⟨p, hp, rfl⟩ := List.mem_map.1 hmem
        exact houtside p (Option.mem_toList.1 hp) (FilePath.startsWith_iff.1 hin)
      have habove : (s.call m call).1.roots.above path =
          (s.roots.above path).filter (·.2 ≠ call.context) := by
        rw [hmoves.roots, Roots.above, List.filter_append, hnew, List.append_nil, Roots.above,
          List.filter_filter, List.filter_filter]
        simp only [Bool.and_comm]
      rw [habove]
      exact Roots.deepest_filter hdeepest (by simpa using hother)

/-! ### Any calls -/

theorem isKept_ofQuiet (m : Machine) (dirs : List FilePath) (quiet : Nat) :
    IsKept m dirs (.ofQuiet quiet) :=
  ⟨.empty, by simp [watched, ofQuiet], by simp [ofQuiet]⟩

theorem inStep_ofQuiet (m : Machine) (dirs : List FilePath) (quiet : Nat) :
    InStep m dirs (.ofQuiet quiet) := by
  constructor <;> simp [ofQuiet, watched, Watcher.empty, Holds, holds, registration?]

theorem along_single (hkeeps : KeepsPaths m dirs) (hs : IsKept m dirs s) {calls : List Call}
    (hcalls : ∀ call ∈ calls, ∀ root ∈ call.root?, root ∈ dirs) :
    Along m (fun s call => (s.call m call).1.watched.Nodup) s calls := by
  induction calls generalizing s with
  | nil => trivial
  | cons call rest ih =>
    have hkept := isKept_call hkeeps hs (hcalls call (by simp))
    exact ⟨hkept.single, ih hkept fun other hother => hcalls other (by simp [hother])⟩

/-- As long as the two were in step before, they are so after each call exactly if each call gives
    up its own root only. -/
theorem along_inStep_iff (hkeeps : KeepsPaths m dirs) (hs : IsKept m dirs s)
    (hstep : InStep m dirs s) {calls : List Call}
    (hcalls : ∀ call ∈ calls, ∀ root ∈ call.root?, root ∈ dirs) :
    Along m (fun s call => InStep m dirs (s.call m call).1 ∧ s.Respects m call) s calls ↔
      Along m (fun s call => s.GivesUpOwn m call) s calls := by
  -- either side says that the two are in step before the next call
  induction calls generalizing s with
  | nil => exact Iff.rfl
  | cons call rest ih =>
    have hcall := hcalls call (by simp)
    have hkept := isKept_call hkeeps hs hcall
    have hrest (hafter : InStep m dirs (s.call m call).1) :=
      ih hkept hafter fun other hother => hcalls other (by simp [hother])
    constructor
    · rintro ⟨⟨hafter, -⟩, hothers⟩
      exact ⟨(inStep_call_iff hkeeps hs hstep hcall).1 hafter, (hrest hafter).1 hothers⟩
    · rintro ⟨hown, hothers⟩
      have hafter := (inStep_call_iff hkeeps hs hstep hcall).2 hown
      exact ⟨⟨hafter, respects_call hkeeps hs hstep hcall hown⟩, (hrest hafter).2 hothers⟩

/-- The watcher keeps a set of the paths that the calls are about. Then a context has one root at
    most whatever is called. Exactly the roots in the table are watched after each call, no call
    fails and none takes a report from another context, if and only if no call gives up a root that
    is somebody's after it. The reports meant here are those of changes outside the root that the
    call begins to watch: inside that root the deepest root may be another one from then on, and
    its context is told in place of the one that was told before. -/
theorem in_step_iff_gives_up_own (hkeeps : KeepsPaths m dirs) (quiet : Nat) (calls : List Call)
    (hcalls : ∀ call ∈ calls, ∀ root ∈ call.root?, root ∈ dirs) :
    Along m (fun s call => (s.call m call).1.watched.Nodup) (.ofQuiet quiet) calls ∧
      (Along m (fun s call => InStep m dirs (s.call m call).1 ∧ s.Respects m call)
          (.ofQuiet quiet) calls ↔
        Along m (fun s call => s.GivesUpOwn m call) (.ofQuiet quiet) calls) := by
  have hs := isKept_ofQuiet m dirs quiet
  have hstep := inStep_ofQuiet m dirs quiet
  exact ⟨along_single hkeeps hs hcalls, along_inStep_iff hkeeps hs hstep hcalls⟩

/-! ### Two directories -/

/-- A directory with another one in it, one beside it, and the working directory above both. -/
def twoShops : Machine :=
  ⟨(FileTree.empty.put ["srv", "a", "in"] .directory).put ["srv", "b"] .directory, ["srv"], ⟨"/"⟩⟩

/-- The two directories, each under two spellings. -/
def shopDirs : List FilePath :=
  [⟨"/srv/a"⟩, ⟨"a"⟩, ⟨"/srv/b"⟩, ⟨"b/"⟩]

theorem keepsPaths_shops : KeepsPaths twoShops shopDirs := by
  refine keepsPaths_of_apart ⟨?_, ?_, ?_, ?_⟩
  · decide +kernel
  · decide +kernel
  · unfold OneToOne
    decide +kernel
  · decide +kernel

def red : ContextPath := ⟨"/red", by decide⟩

def blue : ContextPath := ⟨"/blue", by decide⟩

/-- One context moves from its own directory to that of the other, which keeps it. -/
def moves : List Call :=
  [.watch red ⟨"/srv/a"⟩, .watch blue ⟨"/srv/b"⟩, .watch red ⟨"b/"⟩]

theorem in_step_of_moves :
    KeepsPaths twoShops shopDirs ∧
      (∀ call ∈ moves, ∀ root ∈ call.root?, root ∈ shopDirs) ∧
      Along twoShops (fun s call => InStep twoShops shopDirs (s.call twoShops call).1 ∧
        s.Respects twoShops call) (.ofQuiet 0) moves := by
  have hcalls : ∀ call ∈ moves, ∀ root ∈ call.root?, root ∈ shopDirs := by decide +kernel
  refine ⟨keepsPaths_shops, hcalls, ?_⟩
  refine (in_step_iff_gives_up_own keepsPaths_shops 0 moves hcalls).2.2 ?_
  decide +kernel

/-- Two contexts have one directory, and the first of them leaves it. -/
def leaves : List Call :=
  [.watch red ⟨"/srv/a"⟩, .watch blue ⟨"/srv/a"⟩, .unwatch red, .unwatch blue]

/-- A context is told to watch its own directory by way of the working directory. -/
def respells : List Call :=
  [.watch red ⟨"/srv/a"⟩, .watch red ⟨"a"⟩, .unwatch red]

/-- The scanner after some calls. -/
def after (m : Machine) (s : Scanner) (calls : List Call) : Scanner :=
  calls.foldl (fun s call => (s.call m call).1) s

/-- When the first of two contexts leaves their directory, it is no longer watched for the other,
    which still has it in the table, is told nothing more, and cannot leave it without an error.
    So it is for one context that comes to its own directory by another spelling. -/
theorem shared_root_is_lost :
    KeepsPaths twoShops shopDirs ∧
      (∀ call ∈ leaves ++ respells, ∀ root ∈ call.root?, root ∈ shopDirs) ∧
      ¬ Along twoShops (fun s call => InStep twoShops shopDirs (s.call twoShops call).1 ∧
          s.Respects twoShops call) (.ofQuiet 0) leaves ∧
      ¬ Along twoShops (fun s call => InStep twoShops shopDirs (s.call twoShops call).1 ∧
          s.Respects twoShops call) (.ofQuiet 0) respells ∧
      (after twoShops (.ofQuiet 0) (leaves.take 2)).Tells twoShops ⟨"/srv/a/in/x"⟩ blue ∧
      ¬ (after twoShops (.ofQuiet 0) (leaves.take 3)).Tells twoShops ⟨"/srv/a/in/x"⟩ blue ∧
      (after twoShops (.ofQuiet 0) (leaves.take 3)).rootOf? blue = some ⟨"/srv/a"⟩ ∧
      ((after twoShops (.ofQuiet 0) (leaves.take 3)).unwatch twoShops blue).2 =
        .error (.notUnwatched ⟨"/srv/a"⟩) ∧
      ((after twoShops (.ofQuiet 0) (respells.take 2)).unwatch twoShops red).2 =
        .error (.notUnwatched ⟨"a"⟩) := by
  refine ⟨keepsPaths_shops, by decide +kernel, ?_, ?_, by decide +kernel, by decide +kernel,
    by decide +kernel, by decide +kernel, by decide +kernel⟩
  · rintro ⟨-, -, ⟨hstep, -⟩, -⟩
    have hheld := hstep.held (⟨"/srv/a"⟩, blue) (by decide +kernel)
    exact absurd hheld (by decide +kernel)
  · rintro ⟨-, ⟨hstep, -⟩, -⟩
    have hheld := hstep.held (⟨"a"⟩, red) (by decide +kernel)
    exact absurd hheld (by decide +kernel)

end Scanner

end Hosting
