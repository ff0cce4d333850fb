import Hosting.Proofs.Host.Registry
import Mathlib.Data.Multiset.Filter

/-! # Calls section by section

    A deployment and an undeployment change several tables, and hold each of them only while
    they change it. Between two of these sections other calls have their turn.

    - `Stage`, `advance`: a call and the section it does next. Left alone, it comes to what
      `deploy` or `undeploy` comes to (`iterate_advance`).
    - `Overlap`, `Overlaps`: any number of calls at once, one section at a time.
    - `Coherent`: what should hold once all calls have returned.
    - `overlaps_run`: calls may also run one after the other.
-/

namespace Hosting.Host

/-! ### Sections -/

/-- What a call returns. -/
inductive Returned where
  | deployed (result : Except Failure ContextPath)
  | undeployed (result : Except Failure Context)

/-- How far a call has come, by the section that it does next. -/
inductive Stage where
  /-- A deployment puts the new context and its descriptor into the tables. The table of
      contexts is held for both. -/
  | register (d : Descriptor)
  /-- It looks the context up again. -/
  | read (path : ContextPath) (d : Descriptor)
  /-- It stores the deployment. -/
  | save (path : ContextPath) (d : Descriptor) (c : Context)
  | reportDeployed (path : ContextPath)
  /-- An undeployment takes the context out of its table. -/
  | take (path : ContextPath)
  /-- It takes the descriptor out of the other one. -/
  | forget (path : ContextPath) (c : Context)
  /-- It deletes the stored deployment. -/
  | delete (path : ContextPath) (c : Context)
  | reportUndeployed (path : ContextPath) (c : Context)
  | returned (result : Returned)

/-- A call before its first section. -/
def Stage.begin : HostCall → Stage
  | .deploy d => .register d
  | .undeploy path => .take path

/-- The host after the next section of a call, and how far the call has come by that. -/
def advance : Host × Stage → Host × Stage
  | (h, .register d) =>
    match h.register d with
    | (h, .error e) => (h, .returned (.deployed (.error (.host e))))
    | (h, .ok path) => (h, .read path d)
  | (h, .read path d) =>
    match h.contexts.get? path with
    | none => (h, .reportDeployed path)
    | some c => (h, .save path d c)
  | (h, .save path d c) =>
    match h.onDatabase fun tables => tables.saveDeployment d c.id c.deployedAt with
    | (h, .error e) => (h, .returned (.deployed (.error e)))
    | (h, .ok ()) => (h, .reportDeployed path)
  | (h, .reportDeployed path) =>
    (h.record path "deployed" none, .returned (.deployed (.ok path)))
  | (h, .take path) =>
    match h.contexts.get? path with
    | none => (h, .returned (.undeployed (.error (.host (.noSuchContext path.text)))))
    | some c => (h.removeContext path, .forget path c)
  | (h, .forget path c) => (h.removeDescriptor path, .delete path c)
  | (h, .delete path c) =>
    match h.onDatabase fun tables => tables.deleteDeployment path with
    | (h, .error e) => (h, .returned (.undeployed (.error e)))
    | (h, .ok ()) => (h, .reportUndeployed path c)
  | (h, .reportUndeployed path c) =>
    (h.record path "undeployed" none, .returned (.undeployed (.ok c.markStopped)))
  | (h, .returned result) => (h, .returned result)

/-- What a call returns that runs alone. -/
def result (h : Host) : HostCall → Returned
  | .deploy d => .deployed (h.deploy d).2
  | .undeploy path => .undeployed (h.undeploy path).2

/-- The sections of a call, one after the other, are the call. -/
theorem iterate_advance (h : Host) (call : HostCall) :
    advance^[4] (h, .begin call) = (h.perform call, .returned (h.result call)) := by
  cases call with
  | deploy d =>
    simp only [Function.iterate_succ_apply, Function.iterate_zero, id, Stage.begin, perform,
      result, deploy, advance]
    rcases hr : h.register d with ⟨registered, e | path⟩
    · rfl
    · simp only [storeDeployment]
      cases registered.contexts.get? path with
      | none => rfl
      | some c =>
        simp only
        rcases registered.onDatabase (fun tables =>
          tables.saveDeployment d c.id c.deployedAt) with ⟨stored, e | _⟩ <;> rfl
  | undeploy path =>
    simp only [Function.iterate_succ_apply, Function.iterate_zero, id, Stage.begin, perform,
      result, undeploy, advance]
    cases h.contexts.get? path with
    | none => rfl
    | some c =>
      simp only
      rcases ((h.removeContext path).removeDescriptor path).onDatabase (fun tables =>
        tables.deleteDeployment path) with ⟨removed, e | _⟩ <;> rfl

/-! ### Calls at once -/

/-- One of the calls under way goes through its next section. -/
inductive Overlap : Host × Multiset Stage → Host × Multiset Stage → Prop where
  | advance (h : Host) (s : Stage) (others : Multiset Stage) :
      Overlap (h, s ::ₘ others) ((advance (h, s)).1, (advance (h, s)).2 ::ₘ others)

/-- Calls under way go on, in any order of their sections. -/
def Overlaps : Host × Multiset Stage → Host × Multiset Stage → Prop :=
  Relation.ReflTransGen Overlap

instance : Trans Overlaps Overlaps Overlaps := ⟨Relation.ReflTransGen.trans⟩

/-- Calls before the first section of any of them. -/
def beginAll (calls : Multiset HostCall) : Multiset Stage :=
  calls.map .begin

/-- The call has returned. -/
def Stage.HasReturned : Stage → Prop
  | .returned _ => True
  | _ => False

/-- The three tables have the same paths, and what is stored reads back as the descriptors. -/
structure Coherent (h : Host) : Prop where
  same_paths (p : ContextPath) :
    (h.contexts.get? p).isSome = (h.descriptors.get? p).isSome
  mirrored : h.Mirrored

/-- One call goes on while the others wait. -/
theorem overlaps_iterate (n : Nat) (h : Host) (s : Stage) (others : Multiset Stage) :
    Overlaps (h, s ::ₘ others)
      ((advance^[n] (h, s)).1, (advance^[n] (h, s)).2 ::ₘ others) := by
  induction n generalizing h s with
  | zero => exact .refl
  | succ n ih =>
    rw [Function.iterate_succ_apply]
    exact .head (.advance h s others) (ih _ _)

/-- One call runs to its end while the others wait. -/
theorem overlaps_call (h : Host) (call : HostCall) (others : Multiset Stage) :
    Overlaps (h, .begin call ::ₘ others)
      (h.perform call, .returned (h.result call) ::ₘ others) := by
  have hrun := overlaps_iterate 4 h (.begin call) others
  rwa [iterate_advance] at hrun

/-- Calls run one after the other while the others wait. -/
theorem overlaps_run (h : Host) (calls : List HostCall) (others : Multiset Stage) :
    ∃ done : Multiset Stage, (∀ s ∈ done, s.HasReturned) ∧
      Overlaps (h, beginAll calls + others) (h.performAll calls, done + others) := by
  induction calls generalizing h others with
  | nil => exact ⟨0, by simp, .refl⟩
  | cons call calls ih =>
    -- the first call is one of those that wait while the rest run
    let first : Stage := .returned (h.result call)
    obtain ⟨done, hdone, hrest⟩ := ih (h.perform call) (first ::ₘ others)
    rw [Multiset.add_cons, Multiset.add_cons, ← Multiset.cons_add first done] at hrest
    refine ⟨first ::ₘ done, fun s hs => ?_, ?_⟩
    · rcases Multiset.mem_cons.1 hs with rfl | hs
      · trivial
      · exact hdone s hs
    · have hcons : beginAll ((call :: calls : List HostCall) : Multiset HostCall) + others =
          .begin call ::ₘ (beginAll calls + others) := by
        rw [beginAll, ← Multiset.cons_coe, Multiset.map_cons, Multiset.cons_add]
        rfl
      rw [hcons]
      exact (overlaps_call h call (beginAll calls + others)).trans hrest

end Hosting.Host
