import Hosting.Proofs.Host.Events
import Hosting.Proofs.Host.Redeployments
import Hosting.Proofs.Host.Turns

/-! # Reports of a start of all

    A preparation ends in three steps: its copy is stored, an event is written, and its result
    is reported. On its own it stops where the copy is refused. In a start of all it goes on,
    so an application that was undeployed or replaced meanwhile is reported too.

    - `Ending`, `IsTruthful`: the end of a preparation, and what its event and its result
      should say.
    - `isTruthful_ofPrepare`, `isTruthful_ofTask_iff`: the two ways in which preparations end.
    - `Startup`: a start of all beside any other operations.
    - `startup_truthful_iff`: when a start of all tells the truth.
-/

namespace Hosting

theorem eq_ok_of_isOk {ε : Type} {outcome : Except ε Unit} (hok : outcome.isOk = true) :
    outcome = .ok () := by
  cases outcome with
  | ok _ => rfl
  | error e => cases hok

theorem Failure.isOk_withDoing {α : Type} (doing : String) (outcome : Except HostError α) :
    (withDoing doing outcome).isOk = outcome.isOk := by
  cases outcome <;> rfl

namespace Host

variable {h h' : Host}

/-! ### Ends of preparations -/

/-- The end of a preparation. -/
structure Ending where
  before : Host
  after : Host
  /-- The deployment that was read. -/
  id : DeploymentId
  /-- What became of the copy of its context. -/
  copy : Context
  /-- Success is reported. -/
  succeeded : Bool

namespace Ending

/-- A preparation of a start of all ends. -/
def ofTask (h : Host) (task : StartupTask) : Ending where
  before := h
  after := h.putBack task
  id := task.id
  copy := task.preparation.context
  succeeded := task.preparation.outcome.isOk

/-- A preparation on its own ends. -/
def ofPrepare (h : Host) (id : DeploymentId) (prep : Preparation) : Ending where
  before := h
  after := (h.finishPrepare prep.context.path id prep).1
  id := id
  copy := prep.context
  succeeded := (h.finishPrepare prep.context.path id prep).2.isOk

variable {e : Ending}

/-- The deployment that was read is still there. Where it is not, the copy is dropped. -/
def IsStored (e : Ending) : Prop :=
  e.before.Carries e.copy.path e.id

/-- The copy is what the host has at its path by now, and it is started. -/
def Shows (e : Ending) : Prop :=
  e.after.contexts.get? e.copy.path = some e.copy ∧ e.copy.state = .started

/-- An event is written for a path. -/
def Writes (e : Ending) (p : ContextPath) (event : String × Option String) : Prop :=
  ∃ told, e.before.heard p = .ok told ∧ e.after.heard p = .ok (event :: told)

/-- The event and the result say what has become of the application. -/
structure IsTruthful (e : Ending) : Prop where
  succeeded : e.succeeded = true → e.Shows
  started : ∀ p details, e.Writes p ("started", details) → p = e.copy.path ∧ e.Shows
  /-- Nothing is told of a copy that is dropped. -/
  dropped : ¬ e.IsStored → e.succeeded = false ∧ ∀ p, e.after.heard p = e.before.heard p

theorem not_writes_of_heard_eq {p : ContextPath} (hsame : e.after.heard p = e.before.heard p)
    (event : String × Option String) : ¬ e.Writes p event := by
  rintro ⟨told, hbefore, hafter⟩
  rw [hsame, hbefore] at hafter
  exact List.cons_ne_self _ _ (Except.ok.inj hafter).symm

/-- Where nothing is told, nothing wrong is. -/
theorem isTruthful_of_silent (hfailed : e.succeeded = false)
    (hsame : ∀ p, e.after.heard p = e.before.heard p) : e.IsTruthful where
  succeeded hs := by
    rw [hfailed] at hs
    cases hs
  started p _ hw := absurd hw (not_writes_of_heard_eq (hsame p) _)
  dropped _ := ⟨hfailed, hsame⟩

/-- The copy that is stored is the one that is told of. -/
theorem isTruthful_of_settled {c : Context} {env : Environment} {now : Instant}
    (hstored : e.IsStored) (hcopy : e.copy = (c.prepare env now).context)
    (hafter : e.after = e.before.settle (c.prepare env now))
    (hsucceeded : e.succeeded = (c.prepare env now).outcome.isOk) : e.IsTruthful := by
  have hshows (hok : (c.prepare env now).outcome = .ok ()) : e.Shows := by
    refine ⟨?_, ?_⟩
    · rw [hafter, hcopy, contexts_settle, PathTable.get?_insert, if_pos rfl]
    · rw [hcopy]
      exact Context.state_of_prepare_ok hok
  refine ⟨fun hs => hshows (eq_ok_of_isOk (hsucceeded.symm.trans hs)), fun p details hw => ?_,
    fun hdropped => absurd hstored hdropped⟩
  obtain ⟨told, hbefore, hwritten⟩ := hw
  rw [hafter, heard_settle, hbefore] at hwritten
  split at hwritten
  · next hboth =>
    -- the event is the one that goes with the outcome
    have hevent := (List.cons.inj (Except.ok.inj hwritten)).1
    refine ⟨by rw [hboth.2, hcopy], hshows ?_⟩
    cases hout : (c.prepare env now).outcome with
    | ok _ => rfl
    | error err =>
      rw [hout] at hevent
      simp [startupEvent] at hevent
  · exact absurd (Except.ok.inj hwritten).symm (List.cons_ne_self _ _)

end Ending

theorem putBack_of_carries {task : StartupTask}
    (hc : h.Carries task.preparation.context.path task.id) :
    h.putBack task = h.settle task.preparation := by
  unfold putBack settle
  rw [storePrepared_of_carries hc]

theorem putBack_of_gone {task : StartupTask}
    (hc : ¬ h.Carries task.preparation.context.path task.id) :
    h.putBack task =
      h.recordStartup task.preparation.context.path task.preparation.outcome := by
  obtain ⟨e, he⟩ := storePrepared_of_gone hc
  unfold putBack
  rw [he]

namespace Ending

/-- A preparation on its own tells nothing of a copy that it drops. -/
theorem isTruthful_ofPrepare (h : Host) (id : DeploymentId) (c : Context) (env : Environment)
    (now : Instant) : (ofPrepare h id (c.prepare env now)).IsTruthful := by
  let prep := c.prepare env now
  have hsilent (e : Failure) (hfinish : h.finishPrepare prep.context.path id prep =
      (h, .error e)) : (ofPrepare h id prep).IsTruthful := by
    refine isTruthful_of_silent ?_ fun p => ?_
    · show (h.finishPrepare prep.context.path id prep).2.isOk = false
      rw [hfinish]
      rfl
    · show (h.finishPrepare prep.context.path id prep).1.heard p = h.heard p
      rw [hfinish]
  by_cases hc : h.Carries prep.context.path id
  · by_cases hstarted : ∃ text, prep.outcome = .error (.alreadyStarted text)
    · -- the context was started when it was read, and nothing is changed
      obtain ⟨text, htext⟩ := hstarted
      have hfinish : h.finishPrepare prep.context.path id prep = (h, .error (.during
          ("Context " ++ prep.context.path.text ++ " was not prepared")
          (.alreadyStarted text))) := by
        unfold finishPrepare
        rw [htext]
      exact hsilent _ hfinish
    · have hfinish : h.finishPrepare prep.context.path id prep = (h.settle prep,
          Failure.withDoing ("Failed to prepare context " ++ prep.context.path.text)
            prep.outcome) := by
        unfold finishPrepare
        split
        · next text htext => exact absurd ⟨text, htext⟩ hstarted
        · rw [storePrepared_of_carries hc]
          rfl
      refine isTruthful_of_settled hc rfl ?_ ?_
      · show (h.finishPrepare prep.context.path id prep).1 = h.settle prep
        rw [hfinish]
      · show (h.finishPrepare prep.context.path id prep).2.isOk = prep.outcome.isOk
        rw [hfinish, Failure.isOk_withDoing]
  · obtain ⟨e, he⟩ := (swapsOnly h rfl id).finishPrepare_gone hc
    exact hsilent e he

/-- A preparation of a start of all tells the truth where its copy is stored. Where it is dropped,
    nothing is wrong only if the preparation has failed and no event can be written. -/
theorem isTruthful_ofTask_iff (h : Host) (c : Context) (env : Environment) (now : Instant) :
    (ofTask h (startupTask env now c)).IsTruthful ↔
      (ofTask h (startupTask env now c)).IsStored ∨
        (ofTask h (startupTask env now c)).succeeded = false ∧ h.takesEvents = false := by
  let e := ofTask h (startupTask env now c)
  let prep := c.prepare env now
  by_cases hc : e.IsStored
  · refine iff_of_true ?_ (.inl hc)
    exact isTruthful_of_settled hc rfl (putBack_of_carries hc) rfl
  · have hafter : e.after = h.recordStartup prep.context.path prep.outcome := putBack_of_gone hc
    have hheard (p : ContextPath) : e.after.heard p =
        if h.takesEvents = true ∧ p = prep.context.path then
          (h.heard p).map (startupEvent prep.outcome :: ·)
        else h.heard p := by
      rw [hafter, heard_recordStartup]
    constructor
    · intro ht
      obtain ⟨hfailed, hsame⟩ := ht.dropped hc
      refine .inr ⟨hfailed, ?_⟩
      by_contra htakes
      rw [Bool.not_eq_false] at htakes
      -- the event would be heard
      obtain ⟨told, htold⟩ := exists_heard htakes prep.context.path
      have hboth := hsame prep.context.path
      rw [hheard, if_pos ⟨htakes, rfl⟩] at hboth
      have hbefore : e.before.heard prep.context.path = .ok told := htold
      rw [htold, hbefore] at hboth
      exact List.cons_ne_self _ _ (Except.ok.inj hboth)
    · rintro (hstored | ⟨hfailed, htakes⟩)
      · exact absurd hstored hc
      · refine isTruthful_of_silent hfailed fun p => ?_
        show e.after.heard p = h.heard p
        rw [hheard, if_neg (by simp [htakes])]

end Ending

/-! ### A start of all beside other operations -/

/-- The preparation that a move ends. -/
def Move.task? : Move → Option StartupTask
  | .call _ => none
  | .finish task => some task

theorem task?_moves (tasks : List StartupTask) :
    (tasks.map StartupTask.moves).flatten.filterMap Move.task? = tasks := by
  induction tasks with
  | nil => rfl
  | cons task tasks ih =>
    have hcalls : (task.preparation.calls.map Move.call).filterMap Move.task? = [] := by
      rw [List.filterMap_map]
      exact List.filterMap_eq_nil_iff.2 fun _ _ => rfl
    rw [List.map_cons, List.flatten_cons, List.filterMap_append, ih, StartupTask.moves,
      List.filterMap_append, hcalls]
    rfl

/-- A start of all that has these preparations left. They end one by one in any order, and parts of
    other operations come in between, the calls of their processors among them. Each end is
    listed with the host that it finds. -/
inductive Startup : List StartupTask → Host → List (Host × StartupTask) → Host → Prop where
  | done (h : Host) : Startup [] h [] h
  | part {tasks : List StartupTask} {ends : List (Host × StartupTask)} {h h₁ h' : Host} :
      Part (fun _ => True) h h₁ → Startup tasks h₁ ends h' → Startup tasks h ends h'
  | finish {tasks rest : List StartupTask} {ends : List (Host × StartupTask)} {h h' : Host}
      {task : StartupTask} :
      tasks.Perm (task :: rest) → Startup rest (h.putBack task) ends h' →
      Startup tasks h ((h, task) :: ends) h'

namespace Startup

variable {tasks : List StartupTask} {ends : List (Host × StartupTask)}

/-- Every preparation ends once. -/
theorem perm_tasks (hs : Startup tasks h ends h') : (ends.map (·.2)).Perm tasks := by
  induction hs with
  | done => exact .nil
  | part _ _ ih => exact ih
  | @finish tasks rest ends h h' task hperm _ ih => exact (ih.cons task).trans hperm.symm

/-- The order in which the preparations are listed does not matter. -/
theorem of_perm {others : List StartupTask} (hs : Startup tasks h ends h')
    (hperm : others.Perm tasks) : Startup others h ends h' := by
  induction hs generalizing others with
  | done =>
    obtain rfl := hperm.eq_nil
    exact .done _
  | part hpart _ ih => exact .part hpart (ih hperm)
  | finish htasks hrest _ => exact .finish (hperm.trans htasks) hrest

theorem of_parts {h₁ : Host} (hp : Parts (fun _ => True) h h₁) (hs : Startup tasks h₁ ends h') :
    Startup tasks h ends h' := by
  induction hp using Relation.ReflTransGen.head_induction_on with
  | refl => exact hs
  | head hpart _ ih => exact .part hpart ih

end Startup

/-- Moves are such a run, of the preparations that they end. -/
theorem startup_playAll (h : Host) (moves : List Move) :
    ∃ ends, Startup (moves.filterMap Move.task?) h ends (h.playAll moves) ∧
      ends.map (·.2) = moves.filterMap Move.task? := by
  induction moves generalizing h with
  | nil => exact ⟨[], .done h, rfl⟩
  | cons move moves ih =>
    obtain ⟨ends, hends, htasks⟩ := ih (h.play move)
    cases move with
    | call c =>
      have hcall : Parts (fun _ => True) h (h.play (.call c)) := parts_performAll h [c]
      exact ⟨ends, .of_parts hcall hends, htasks⟩
    | finish task =>
      refine ⟨(h, task) :: ends, .finish (.refl _) hends, ?_⟩
      rw [List.map_cons, htasks]
      rfl

/-- A start of all that nothing comes into, with its results. -/
theorem startup_startAll (h : Host) (m : Machine) :
    ∃ ends, Startup (h.startupTasksOn fun _ => m) h.tick ends (h.startAll m).1 ∧
      (h.startAll m).2 = sortResults (ends.map (·.2.result)) := by
  obtain ⟨ends, hends, htasks⟩ := startup_playAll h.tick
    ((h.startupTasksOn fun _ => m).map StartupTask.moves).flatten
  rw [task?_moves] at hends htasks
  rw [← startAll_eq_playAll] at hends
  refine ⟨ends, hends, ?_⟩
  have hresults : (h.startAll m).2 =
      sortResults (h.tick.finishTasks (h.startupTasksOn fun _ => m)).2 := rfl
  rw [hresults, results_finishTasks, ← htasks, List.map_map]
  rfl

/-- So is one that ends its preparations in another order, with the calls of each before its end. -/
theorem startup_of_interleaved {machine : Context → Machine} {moves : List Move}
    (hi : Interleaved ((h.startupTasksOn machine).map StartupTask.moves) moves) :
    ∃ ends, Startup (h.startupTasksOn machine) h.tick ends (h.tick.playAll moves) := by
  obtain ⟨ends, hends, -⟩ := startup_playAll h.tick moves
  have hperm := hi.perm_flatten.filterMap Move.task?
  rw [task?_moves] at hperm
  exact ⟨ends, hends.of_perm hperm.symm⟩

/-- A start of all may run beside any other operations. Each of its preparations ends once, and what
    it tells is true if its copy is stored. If the application was undeployed or replaced
    meanwhile, the copy is dropped and told of all the same: then nothing is wrong only where
    the preparation has failed and no event can be written. A preparation on its own tells the
    truth always. -/
theorem startup_truthful_iff (h : Host) :
    (∀ m, ∃ ends, Startup (h.startupTasksOn fun _ => m) h.tick ends (h.startAll m).1 ∧
        (h.startAll m).2 = sortResults (ends.map (·.2.result))) ∧
      (∀ machine moves,
        Interleaved ((h.startupTasksOn machine).map StartupTask.moves) moves →
        ∃ ends, Startup (h.startupTasksOn machine) h.tick ends (h.tick.playAll moves)) ∧
      (∀ machine ends h', Startup (h.startupTasksOn machine) h.tick ends h' →
        (ends.map (·.2)).Perm (h.startupTasksOn machine) ∧
          ∀ e ∈ ends, (Ending.ofTask e.1 e.2).IsTruthful ↔ (Ending.ofTask e.1 e.2).IsStored ∨
            (Ending.ofTask e.1 e.2).succeeded = false ∧ e.1.takesEvents = false) ∧
      ∀ (before : Host) (m : Machine) (c : Context),
        (Ending.ofPrepare before c.id (h.preparationOf m c)).IsTruthful := by
  refine ⟨startup_startAll h, fun machine moves hi => startup_of_interleaved hi,
    fun machine ends h' hrun => ?_,
    fun before m c => Ending.isTruthful_ofPrepare before c.id c _ _⟩
  have hperm := hrun.perm_tasks
  refine ⟨hperm, fun e he => ?_⟩
  -- every preparation that ends is of a context that was read
  have htask : e.2 ∈ h.startupTasksOn machine := hperm.mem_iff.1 (List.mem_map_of_mem he)
  obtain ⟨c, -, hc⟩ := List.mem_map.1 htask
  rw [← hc]
  exact Ending.isTruthful_ofTask_iff e.1 c _ _

/-- Where nothing comes in between, the application is started as it is told. -/
theorem startup_truthful_iff_undisturbed :
    ∃ task, occupiedHost.startupTasksOn (fun _ => Sample.machine) = [task] ∧
      task.result = (Sample.pathA, .ok ()) ∧
      Startup [task] occupiedHost.tick [(occupiedHost.tick, task)]
        (occupiedHost.tick.putBack task) ∧
      (Ending.ofTask occupiedHost.tick task).IsTruthful := by
  obtain ⟨task, htasks⟩ : ∃ task,
      occupiedHost.startupTasksOn (fun _ => Sample.machine) = [task] := ⟨_, rfl⟩
  have htask : task ∈ occupiedHost.startupTasksOn (fun _ => Sample.machine) := by
    rw [htasks]
    exact List.mem_singleton.2 rfl
  have hrun : Startup [task] occupiedHost.tick [(occupiedHost.tick, task)]
      (occupiedHost.tick.putBack task) := .finish (.refl _) (.done _)
  obtain ⟨-, -, hall, -⟩ := startup_truthful_iff occupiedHost
  obtain ⟨-, hends⟩ := hall (fun _ => Sample.machine) _ _ (by rw [htasks]; exact hrun)
  refine ⟨task, htasks, ?_, hrun, (hends _ (List.mem_singleton.2 rfl)).2 (.inl ?_)⟩
  · obtain rfl := (List.cons.inj htasks).1
    rfl
  · obtain rfl := (List.cons.inj htasks).1
    exact ⟨_, rfl, rfl⟩

/-- The application whose processor replaces it is reported as started, and the one that is there
    is not started. -/
theorem startup_not_truthful :
    restlessHost.Reachable ∧
      (restlessHost.startAll Sample.machine).1.contexts.values.map (·.state) = [.deployed] ∧
      ∃ ends, Startup (restlessHost.startupTasksOn fun _ => Sample.machine) restlessHost.tick
          ends (restlessHost.startAll Sample.machine).1 ∧
        (restlessHost.startAll Sample.machine).2 = sortResults (ends.map (·.2.result)) ∧
        (Sample.pathA, .ok ()) ∈ ends.map (·.2.result) ∧
        ∃ e ∈ ends, ¬ (Ending.ofTask e.1 e.2).IsTruthful := by
  have hreach : restlessHost.Reachable :=
    ⟨freshHost, .restore restore_freshHost, .single (.deploy _ _)⟩
  obtain ⟨task, htasks, hid, hresult, hcalls⟩ : ∃ task,
      restlessHost.startupTasksOn (fun _ => Sample.machine) = [task] ∧ task.id = ⟨0⟩ ∧
        task.result = (Sample.pathA, .ok ()) ∧ task.preparation.calls =
          [.undeploy Sample.pathA, .deploy (.ofBase "/A" "/srv/a")] := ⟨_, rfl, rfl, rfl, rfl⟩
  let before := restlessHost.tick.performAll task.preparation.calls
  have hstart : restlessHost.startAll Sample.machine =
      (before.putBack task, sortResults [task.result]) := by
    show restlessHost.tick.finishStartup (restlessHost.startupTasksOn fun _ => Sample.machine) = _
    rw [htasks]
    rfl
  have hrun : Startup [task] restlessHost.tick [(before, task)] (before.putBack task) :=
    .of_parts (parts_performAll ..) (.finish (.refl _) (.done _))
  have hpath : task.preparation.context.path = Sample.pathA := congrArg Prod.fst hresult
  have hgone : ¬ before.Carries task.preparation.context.path task.id := by
    rintro ⟨current, hcurrent, hsame⟩
    have hnewer : (before.contexts.get? Sample.pathA).map (·.id) = some ⟨4⟩ := by
      show ((restlessHost.tick.performAll task.preparation.calls).contexts.get?
        Sample.pathA).map (·.id) = some ⟨4⟩
      rw [hcalls]
      rfl
    rw [← hpath, hcurrent, Option.map_some, hsame, hid] at hnewer
    simp at hnewer
  refine ⟨hreach, rfl, [(before, task)], ?_, by rw [hstart]; rfl,
    List.mem_singleton.2 hresult.symm, (before, task), List.mem_singleton.2 rfl, fun ht => ?_⟩
  · rw [htasks, hstart]
    exact hrun
  · -- the copy is dropped, and a success is reported
    have hsilent : task.preparation.outcome.isOk = false := (ht.dropped hgone).1
    have hok : task.preparation.outcome = .ok () := congrArg Prod.snd hresult
    rw [hok] at hsilent
    cases hsilent

end Host

end Hosting
