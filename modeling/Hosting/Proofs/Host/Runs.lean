import Hosting.Host.Startup
import Mathlib.Logic.Relation

/-! # Runs of a host

    A run is a sequence of operations, each completed before the next begins. Inside an
    operation two things are left open: what the processors do with their setup, and which
    calls they make to the host. Inside a start of all a third thing is open: the order in
    which the preparations make their calls and are put back.

    - `Interleaved`: one list made of several, each in its own order.
    - `Move`, `playAll`: a start of all, move by move. `startAll` is one of its orders
      (`startAll_eq_playAll`).
    - `Step`, `Steps`, `Reachable`: runs, and the hosts they lead to.
-/

namespace Hosting

/-! ### Interleavings -/

/-- All elements of the queues in one list, those of each queue in order. -/
inductive Interleaved {α : Type} : List (List α) → List α → Prop where
  | done {queues : List (List α)} : (∀ q ∈ queues, q = []) → Interleaved queues []
  | next {before after : List (List α)} {x : α} {queue merged : List α} :
      Interleaved (before ++ queue :: after) merged →
      Interleaved (before ++ (x :: queue) :: after) (x :: merged)

namespace Interleaved

variable {α : Type}

theorem mem_queues {queues : List (List α)} {merged : List α} (h : Interleaved queues merged) :
    ∀ x ∈ merged, ∃ q ∈ queues, x ∈ q := by
  induction h with
  | done _ => simp
  | @next before after x queue merged _ ih =>
    intro y hy
    rcases List.mem_cons.1 hy with rfl | hy
    · exact ⟨y :: queue, by simp, by simp⟩
    · obtain ⟨q, hq, hyq⟩ := ih y hy
      rcases List.mem_append.1 hq with hq | hq
      · exact ⟨q, by simp [hq], hyq⟩
      · rcases List.mem_cons.1 hq with rfl | hq
        · exact ⟨x :: q, by simp, by simp [hyq]⟩
        · exact ⟨q, by simp [hq], hyq⟩

/-- A queue that is used up changes nothing. -/
theorem cons_nil {queues : List (List α)} {merged : List α} (h : Interleaved queues merged) :
    Interleaved ([] :: queues) merged := by
  induction h with
  | done hall => exact .done (by simpa using hall)
  | @next before after x queue merged _ ih => exact @Interleaved.next α ([] :: before) _ _ _ _ ih

theorem cons_append {queues : List (List α)} {merged : List α} (h : Interleaved queues merged)
    (q : List α) : Interleaved (q :: queues) (q ++ merged) := by
  induction q with
  | nil => exact h.cons_nil
  | cons x q ih => exact @Interleaved.next α [] _ _ _ _ ih

/-- One queue after the other. -/
theorem flatten (queues : List (List α)) : Interleaved queues queues.flatten := by
  -- the first queue is used up before the others are touched
  induction queues with
  | nil => exact .done (by simp)
  | cons q queues ih => exact ih.cons_append q

/-- All elements of the queues are in the merged list. -/
theorem perm_flatten {queues : List (List α)} {merged : List α}
    (h : Interleaved queues merged) : merged.Perm queues.flatten := by
  induction h with
  | done hall => rw [List.flatten_eq_nil_iff.2 hall]
  | @next before after x queue merged _ ih =>
    rw [List.flatten_append, List.flatten_cons] at ih ⊢
    refine (ih.cons x).trans ?_
    rw [List.cons_append]
    exact List.perm_middle.symm

end Interleaved

namespace Host

/-! ### A start of all, move by move -/

/-- What happens to the host while preparations go on. -/
inductive Move where
  /-- A processor makes a call, which is completed. -/
  | call (c : HostCall)
  /-- A preparation has ended, and its copy is put back and reported. -/
  | finish (task : StartupTask)

/-- The moves of one preparation. -/
def StartupTask.moves (task : StartupTask) : List Move :=
  task.preparation.calls.map .call ++ [.finish task]

/-- Puts the copy of a preparation back, if its deployment is still there, and writes how it
    went. -/
def putBack (h : Host) (task : StartupTask) : Host :=
  ((h.storePrepared task.id task.preparation.context).1).recordStartup
    task.preparation.context.path task.preparation.outcome

/-- The host after a move. -/
def play (h : Host) : Move → Host
  | .call c => h.perform c
  | .finish task => h.putBack task

/-- The host after moves. -/
def playAll (h : Host) (moves : List Move) : Host :=
  moves.foldl play h

theorem playAll_append (h : Host) (moves more : List Move) :
    h.playAll (moves ++ more) = (h.playAll moves).playAll more :=
  List.foldl_append

theorem playAll_calls (h : Host) (calls : List HostCall) :
    h.playAll (calls.map .call) = h.performAll calls := by
  unfold playAll performAll
  rw [List.foldl_map]
  rfl

theorem playAll_moves (h : Host) (task : StartupTask) :
    h.playAll task.moves = (h.finishTask task).1 := by
  -- first the calls, then the copy: that is how a task is ended
  unfold StartupTask.moves
  rw [playAll_append, playAll_calls]
  rfl

theorem finishTasks_eq_playAll (h : Host) (tasks : List StartupTask) :
    (h.finishTasks tasks).1 = h.playAll (tasks.map StartupTask.moves).flatten := by
  induction tasks generalizing h with
  | nil => rfl
  | cons task tasks ih =>
    rw [List.map_cons, List.flatten_cons, playAll_append, playAll_moves, ← ih]
    rfl

/-- What a start of all reports of a preparation. -/
def StartupTask.result (task : StartupTask) : StartupResult :=
  (task.preparation.context.path, task.preparation.outcome)

theorem results_finishTasks (h : Host) (tasks : List StartupTask) :
    (h.finishTasks tasks).2 = tasks.map StartupTask.result := by
  induction tasks generalizing h with
  | nil => rfl
  | cons task tasks ih =>
    rw [List.map_cons, ← ih]
    rfl

/-- The preparations of a start of all, each with the file tree that it sees. -/
def startupTasksOn (h : Host) (machine : Context → Machine) : List StartupTask :=
  h.pending.map fun c => startupTask (h.environment (machine c)) h.supply.now c

theorem startAll_eq_playAll (h : Host) (m : Machine) :
    (h.startAll m).1 =
      h.tick.playAll ((h.startupTasksOn fun _ => m).map StartupTask.moves).flatten :=
  finishTasks_eq_playAll h.tick (h.startupTasks m)

/-- What a start of all puts back are copies of the contexts that it has read. -/
theorem task_of_interleaved {h : Host} {machine : Context → Machine} {moves : List Move}
    (hi : Interleaved ((h.startupTasksOn machine).map StartupTask.moves) moves)
    {task : StartupTask} (htask : Move.finish task ∈ moves) :
    ∃ c ∈ h.pending, task = startupTask (h.environment (machine c)) h.supply.now c := by
  -- a copy is put back in the queue of its own preparation only
  obtain ⟨queue, hqueue, hmem⟩ := hi.mem_queues _ htask
  obtain ⟨task', htask', rfl⟩ := List.mem_map.1 hqueue
  obtain rfl : task = task' := by simpa [StartupTask.moves] using hmem
  obtain ⟨c, hc, rfl⟩ := List.mem_map.1 htask'
  exact ⟨c, hc, rfl⟩

section Changes

variable {R : Host → Host → Prop} (hdeploy : ∀ h d, R h (h.deploy d).1)
  (hundeploy : ∀ h path, R h (h.undeploy path).1)

include hdeploy hundeploy

/-- Calls are changes of any kind that deployments and undeployments are. -/
theorem changes_performAll (h : Host) (calls : List HostCall) :
    Relation.ReflTransGen R h (h.performAll calls) := by
  induction calls generalizing h with
  | nil => exact .refl
  | cons call calls ih =>
    have hcall : R h (h.perform call) := by
      cases call with
      | deploy d => exact hdeploy h d
      | undeploy path => exact hundeploy h path
    exact .head hcall (ih (h.perform call))

/-- So are moves, if the copies that they put back are. -/
theorem changes_playAll (h : Host) {moves : List Move}
    (hput : ∀ task, Move.finish task ∈ moves → ∀ h, Relation.ReflTransGen R h (h.putBack task)) :
    Relation.ReflTransGen R h (h.playAll moves) := by
  induction moves generalizing h with
  | nil => exact .refl
  | cons move moves ih =>
    have hmove : Relation.ReflTransGen R h (h.play move) := by
      cases move with
      | call c => exact changes_performAll hdeploy hundeploy h [c]
      | finish task => exact hput task (by simp) h
    have hrest := ih (h.play move) fun task htask => hput task (by simp [htask])
    exact hmove.trans hrest

end Changes

/-! ### Steps and runs -/

/-- One operation of a host, or as much of one as was completed. -/
inductive Step : Host → Host → Prop where
  | deploy (h : Host) (d : Descriptor) : Step h (h.deploy d).1
  | undeploy (h : Host) (path : ContextPath) : Step h (h.undeploy path).1
  | prepare (h : Host) (m : Machine) (path : ContextPath) : Step h (h.prepare m path).1
  | redeploy (h : Host) (m : Machine) (path : ContextPath) : Step h (h.redeploy m path).1
  /-- A start of all, in any order of its moves and up to any of them. -/
  | startAll (h : Host) (machine : Context → Machine) (moves left : List Move) :
      Interleaved ((h.startupTasksOn machine).map StartupTask.moves) (moves ++ left) →
      Step h (h.tick.playAll moves)
  /-- The calls that processors have made so far in a preparation under way. -/
  | calls (h : Host) (made : List HostCall) : Step h (h.tick.performAll made)
  | updateSettings (h : Host) (f : Settings → Settings) : Step h (h.updateSettings f)
  | saveSettings (h : Host) : Step h h.saveSettings.1

/-- A run of any length. -/
def Steps : Host → Host → Prop := Relation.ReflTransGen Step

theorem step_startAll (h : Host) (m : Machine) : Step h (h.startAll m).1 := by
  -- all preparations see the same machine, and nothing is left to be done
  rw [startAll_eq_playAll]
  refine .startAll h (fun _ => m) _ [] ?_
  rw [List.append_nil]
  exact Interleaved.flatten _

/-- A host as it is made: without a database, or from one with any content. -/
inductive Opened : Host → Prop where
  | ofSettings (settings : Settings) (registry : ProcessorRegistry) (supply : Supply) :
      Opened (ofSettings settings registry supply)
  | restore {db : Database} {registry : ProcessorRegistry} {supply : Supply} {h : Host} :
      restore db registry supply = .ok h → Opened h

/-- A host that some run leads to. -/
def Reachable (h : Host) : Prop :=
  ∃ opened, Opened opened ∧ Steps opened h

theorem Reachable.step {h h' : Host} (hreach : Reachable h) (hstep : Step h h') :
    Reachable h' := by
  obtain ⟨opened, hopened, hsteps⟩ := hreach
  exact ⟨opened, hopened, hsteps.tail hstep⟩

end Host

/-! ### A small machine -/

namespace Sample

/-- A machine with one directory to deploy from, `/srv/a`, and a file in it. -/
def machine : Machine where
  files :=
    (((FileTree.empty.put ["srv"] .directory).put ["srv", "a"] .directory).put
      ["srv", "a", "static"] .directory).put ["srv", "a", "static", "a.txt"] (.file (.text "x"))
  workingDirectory := []
  dataHome := ⟨"/home"⟩

/-- A host on this machine, without processors. -/
def host : Host :=
  .ofSettings { Settings.default with deployDirectory := some ⟨"/srv"⟩ } .empty ⟨0, 0⟩

theorem reachable_host : host.Reachable :=
  ⟨host, .ofSettings _ _ _, .refl⟩

/-- The context path `/A`. -/
def pathA : ContextPath := ⟨"/A", by decide⟩

end Sample

end Hosting
