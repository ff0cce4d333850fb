import Hosting.Proofs.Host.Requests
import Mathlib.Data.List.Perm.Basic

/-! # What preparations do to a quiet host

    Preparations of a quiet host come down to three kinds of turns: time passes, a
    registered context takes over how its preparation went, or a new context takes the
    place of a registered one. No turn touches the descriptors or the stored deployments.

    - `Turn`, `Turns`: one such change, and changes one after the other.
    - `turns_prepare`, `turns_redeploy`, `turns_startAll`: the three operations as turns,
      the last in any order in which its preparations end.
    - `Calm.handles`: every request keeps a host calm.
-/

namespace Hosting

theorem ContextPath.nodup_of_sorted {paths : List ContextPath}
    (hsorted : paths.Pairwise (· < ·)) : paths.Nodup := by
  refine hsorted.imp fun {p q} hlt heq => ?_
  rw [heq] at hlt
  exact lt_irrefl q hlt

namespace Host

variable {h h' : Host}

/-! ### Turns -/

/-- Puts a prepared context in its place, and writes how it went. -/
def settle (h : Host) (prep : Preparation) : Host :=
  (h.insertContext prep.context).recordStartup prep.context.path prep.outcome

/-- Puts a new context in place of the one before, and writes that and how it went. -/
def renew (h : Host) (prep : Preparation) : Host :=
  ((h.insertContext prep.context).record prep.context.path "redeployed" none).recordStartup
    prep.context.path prep.outcome

@[simp] theorem contexts_settle (h : Host) (prep : Preparation) :
    (h.settle prep).contexts = h.contexts.insert prep.context.path prep.context :=
  contexts_recordStartup ..

@[simp] theorem contexts_renew (h : Host) (prep : Preparation) :
    (h.renew prep).contexts = h.contexts.insert prep.context.path prep.context :=
  (contexts_recordStartup ..).trans (contexts_record ..)

/-- One thing that preparations do to a quiet host. -/
inductive Turn : Host → Host → Prop where
  | tick (h : Host) : Turn h h.tick
  /-- A registered context is prepared. -/
  | settle (h : Host) {c : Context} (env : Environment) (now : Instant) :
      h.contexts.get? c.path = some c → c.IsPending → Turn h (h.settle (c.prepare env now))
  /-- A new context for the registered descriptor is prepared. -/
  | renew (h : Host) {d : Descriptor} {c : Context} (id : DeploymentId) (made : Instant)
      (env : Environment) (now : Instant) :
      h.descriptors.get? c.path = some d → Context.ofDescriptor id made d = .ok c →
      (∃ current, h.contexts.get? c.path = some current) →
      Turn h (h.renew (c.prepare env now))

/-- Turns one after the other. -/
def Turns : Host → Host → Prop := Relation.ReflTransGen Turn

theorem descriptors_turn (ht : Turn h h') : h'.descriptors = h.descriptors := by
  cases ht with
  | tick => rfl
  | settle env now hc hpending => exact descriptors_recordStartup ..
  | renew id made env now hd hc hin =>
    exact (descriptors_recordStartup ..).trans (descriptors_record ..)

theorem descriptors_turns (ht : Turns h h') : h'.descriptors = h.descriptors := by
  induction ht with
  | refl => rfl
  | tail _ hturn ih => exact (descriptors_turn hturn).trans ih

theorem writes_of_turn (hk : h.Keyed) (ht : Turn h h') : Writes h h' := by
  cases ht with
  | tick => exact .single (.tick h)
  | @settle c env now hc hpending =>
    have hprepared := (hk.settled hc).prepare env now
    refine .tail (.single (.replace h _ hprepared ?_)) (write_recordStartup ..)
    rw [Context.prepare_path]
    exact ⟨c, hc⟩
  | renew id made env now hd hc hin =>
    have hprepared := (Context.isSettled_ofDescriptor hc).prepare env now
    refine .tail (.tail (.single (.replace h _ hprepared ?_)) (.record ..))
      (write_recordStartup ..)
    rw [Context.prepare_path]
    exact hin

theorem Quiet.turn (hq : h.Quiet) (ht : Turn h h') : h'.Quiet := by
  cases ht with
  | tick => exact hq.tick
  | @settle c env now hc hpending =>
    have hinstances : (c.prepare env now).context.instances = [] := by
      rw [Context.instances_prepare]
      exact hq.instances hc
    exact (hq.insertContext hinstances).of_eq (registry_recordStartup ..)
      (contexts_recordStartup ..)
  | @renew d c id made env now hd hc hin =>
    have hinstances : (c.prepare env now).context.instances = [] := by
      rw [Context.instances_prepare]
      exact Context.instances_ofDescriptor hc
    exact (hq.insertContext hinstances).of_eq
      ((registry_recordStartup ..).trans (registry_record ..))
      ((contexts_recordStartup ..).trans (contexts_record ..))

/-! ### One context -/

/-- A pending context is prepared and put back, and how that went is the answer. -/
theorem prepare_eq_of_pending {c : Context} (hc : h.contexts.get? c.path = some c)
    (hpending : c.IsPending) {m : Machine} (hcalls : (h.preparationOf m c).calls = []) :
    h.prepare m c.path = (h.tick.settle (h.preparationOf m c),
      Failure.withDoing ("Failed to prepare context " ++ c.path.text)
        (h.preparationOf m c).outcome) := by
  have hpath : (h.preparationOf m c).context.path = c.path := Context.prepare_path ..
  have hstored : h.tick.storePrepared c.id (h.preparationOf m c).context =
      (h.tick.insertContext (h.preparationOf m c).context, .ok ()) := by
    refine storePrepared_of_current ?_ rfl
    rw [hpath]
    exact hc
  have hprepare : h.prepare m c.path =
      h.tick.finishPrepare c.path c.id (h.preparationOf m c) := by
    unfold prepare
    rw [hc]
    simp only [hcalls]
    rfl
  rw [hprepare]
  unfold finishPrepare
  split
  · next text htext => exact absurd htext (hpending.ne_alreadyStarted _ _ text)
  · rw [hstored, ← hpath]
    rfl

theorem prepare_of_pending {c : Context} (hc : h.contexts.get? c.path = some c)
    (hpending : c.IsPending) {m : Machine} (hcalls : (h.preparationOf m c).calls = []) :
    (h.prepare m c.path).1 = h.tick.settle (h.preparationOf m c) := by
  rw [prepare_eq_of_pending hc hpending hcalls]

theorem turns_prepare (hk : h.Keyed) (hq : h.Quiet) (m : Machine) (path : ContextPath) :
    Turns h (h.prepare m path).1 := by
  rcases prepare_cases h m path with hsame | ⟨c, hc, hprep⟩
  · rw [hsame]
    exact .refl
  · obtain rfl := hk.context_path hc
    have hcalls := calls_preparationOf hq (hq.instances hc) m
    by_cases hpending : c.IsPending
    · rw [prepare_of_pending hc hpending hcalls]
      exact .tail (.single (.tick h)) (.settle h.tick _ _ hc hpending)
    · -- the preparation is refused, and only time has passed
      rw [hprep, hcalls]
      rcases finishPrepare_cases h.tick c.path c.id (h.preparationOf m c) with hsame | ⟨hnot, -⟩
      · show Turns h (h.tick.finishPrepare c.path c.id (h.preparationOf m c)).1
        rw [hsame]
        exact .single (.tick h)
      · exact absurd ((hk.settled hc).isPending hnot) hpending

theorem turns_redeploy (hk : h.Keyed) (hq : h.Quiet) (m : Machine) (path : ContextPath) :
    Turns h (h.redeploy m path).1 := by
  rcases redeploy_cases h m path with hsame | hsame | ⟨d, c, hd, hc, hprep⟩
  · rw [hsame]
    exact .refl
  · rw [hsame]
    exact .single (.tick h)
  · -- the registered descriptor makes a context for the path that it is registered under
    obtain rfl : path = c.path := by
      have hparse := hk.descriptor_path hd
      rw [(Context.ofDescriptor_spec hc).1] at hparse
      exact (Except.ok.inj hparse).symm
    have hcalls := calls_preparationOf hq (Context.instances_ofDescriptor hc) m
    rw [hcalls] at hprep
    have hfinish : (h.redeploy m c.path).1 =
        (h.tick.finishRedeploy c.path (h.preparationOf m c)).1 := hprep
    rw [hfinish]
    rcases finishRedeploy_cases h.tick c.path (h.preparationOf m c) with hsame | ⟨hin, hput⟩
    · rw [hsame]
      exact .single (.tick h)
    · have hpath : (h.preparationOf m c).context.path = c.path := Context.prepare_path ..
      have hrenew : (h.tick.finishRedeploy c.path (h.preparationOf m c)).1 =
          h.tick.renew (h.preparationOf m c) := by
        rw [hput, ← hpath]
        rfl
      rw [hrenew]
      exact .tail (.single (.tick h)) (.renew h.tick _ _ _ _ hd hc hin)

/-! ### All contexts -/

section Pending

variable (hown : ∀ p c, h.contexts.get? p = some c → c.path = p)

include hown

/-- What is prepared are the contexts that are deployed or have failed. -/
theorem mem_pending_iff {c : Context} :
    c ∈ h.pending ↔ h.contexts.get? c.path = some c ∧ c.IsPending := by
  constructor
  · intro hc
    obtain ⟨hmem, hstate⟩ := List.mem_filter.1 hc
    obtain ⟨p, hp⟩ := PathTable.mem_values_iff.1 hmem
    refine ⟨by rw [hown p c hp]; exact hp, ?_⟩
    cases hs : c.state with
    | deployed => exact .inl hs
    | failed reason => exact .inr ⟨reason, hs⟩
    | starting => simp [hs] at hstate
    | started => simp [hs] at hstate
    | stopped => simp [hs] at hstate
  · rintro ⟨hc, hpending⟩
    refine List.mem_filter.2 ⟨PathTable.mem_values_iff.2 ⟨c.path, hc⟩, ?_⟩
    rcases hpending with hs | ⟨reason, hs⟩ <;> simp only [hs]

/-- A start of all goes through the paths in order. -/
theorem sorted_paths_pending : (h.pending.map (·.path)).Pairwise (· < ·) := by
  have hpaths : h.contexts.values.map (·.path) = h.contexts.paths := by
    unfold PathTable.values PathTable.paths
    rw [List.map_map]
    refine List.map_congr_left fun entry hentry => ?_
    exact hown entry.1 entry.2 ((PathTable.mem_entries_iff _ entry.1 entry.2).1 hentry)
  have hsorted : h.contexts.paths.Pairwise (· < ·) :=
    List.Pairwise.map _ (fun _ _ hlt => hlt) h.contexts.sorted
  have hsub : (h.pending.map (·.path)).Sublist (h.contexts.values.map (·.path)) :=
    List.filter_sublist.map _
  rw [hpaths] at hsub
  exact hsorted.sublist hsub

/-- It prepares no path twice. -/
theorem nodup_paths_pending : (h.pending.map (·.path)).Nodup :=
  ContextPath.nodup_of_sorted (sorted_paths_pending hown)

end Pending

/-- While its context is still the one that was read, the copy is put back. -/
theorem putBack_of_current {c : Context} (hc : h.contexts.get? c.path = some c)
    (env : Environment) (now : Instant) :
    h.putBack (startupTask env now c) = h.settle (c.prepare env now) := by
  have hstored : h.storePrepared c.id (c.prepare env now).context =
      (h.insertContext (c.prepare env now).context, .ok ()) := by
    refine storePrepared_of_current ?_ rfl
    rw [Context.prepare_path]
    exact hc
  unfold putBack settle startupTask
  rw [hstored]

/-- Preparations of different contexts end, in this order. -/
theorem turns_playAll {cs : List Context} (env : Context → Environment) (now : Instant)
    (hnodup : (cs.map (·.path)).Nodup)
    (hcs : ∀ c ∈ cs, h.contexts.get? c.path = some c ∧ c.IsPending) :
    Turns h (h.playAll (cs.map fun c => .finish (startupTask (env c) now c))) := by
  induction cs generalizing h with
  | nil => exact .refl
  | cons c cs ih =>
    rw [List.map_cons, List.nodup_cons] at hnodup
    obtain ⟨hnew, hnodup⟩ := hnodup
    obtain ⟨hc, hpending⟩ := hcs c (by simp)
    have hfirst : h.play (.finish (startupTask (env c) now c)) =
        h.settle (c.prepare (env c) now) := putBack_of_current hc _ _
    show Turns h ((h.play (.finish (startupTask (env c) now c))).playAll _)
    rw [hfirst]
    refine .head (.settle h (env c) now hc hpending) (ih hnodup fun c' hc' => ?_)
    -- the other contexts are not the one that was put back
    have hne : c'.path ≠ c.path := by
      intro heq
      exact hnew (heq ▸ List.mem_map_of_mem hc')
    rw [contexts_settle, PathTable.get?_insert, Context.prepare_path, if_neg hne]
    exact hcs c' (by simp [hc'])

theorem turns_startAll (hk : h.Keyed) (hq : h.Quiet) {machine : Context → Machine}
    {moves : List Move}
    (hi : Interleaved ((h.startupTasksOn machine).map StartupTask.moves) moves) :
    Turns h (h.tick.playAll moves) := by
  have hown : ∀ p c, h.contexts.get? p = some c → c.path = p := fun _ _ => hk.context_path
  -- without calls, each preparation is one move
  have hqueues : (h.startupTasksOn machine).map StartupTask.moves = h.pending.map fun c =>
      [.finish (startupTask (h.environment (machine c)) h.supply.now c)] := by
    unfold startupTasksOn
    rw [List.map_map]
    refine List.map_congr_left fun c hc => ?_
    have hcalls : (c.prepare (h.environment (machine c)) h.supply.now).calls = [] :=
      calls_preparationOf hq (hq.instances ((mem_pending_iff hown).1 hc).1) _
    simp only [Function.comp, StartupTask.moves, startupTask, hcalls, List.map_nil,
      List.nil_append]
  have hperm := hi.perm_flatten
  rw [hqueues, ← List.flatMap_def, ← List.map_eq_flatMap] at hperm
  -- so the moves are those of the pending contexts in some order
  obtain ⟨cs, rfl, hcs⟩ :=
    (congrFun (congrFun (List.eq_map_comp_perm _) moves) h.pending).mpr hperm
  have hnodup : (cs.map (·.path)).Nodup :=
    (hcs.map _).nodup_iff.2 (nodup_paths_pending hown)
  have hcurrent : ∀ c ∈ cs, h.contexts.get? c.path = some c ∧ c.IsPending :=
    fun c hc => (mem_pending_iff hown).1 (hcs.mem_iff.1 hc)
  exact .head (.tick h) (turns_playAll _ _ hnodup hcurrent)

/-! ### Calm hosts -/

/-- Where it is not a deployment or an undeployment, a request is a sequence of turns. -/
theorem Calm.handles_cases (hcalm : h.Calm) {r : Request} {a : Answer}
    (hh : Handles h r a h') :
    (∃ d, r = .deploy d ∧ a = some (h.deploy d).2 ∧ h' = (h.deploy d).1) ∨
      (∃ path, r = .undeploy path ∧ a = some ((h.undeploy path).2.map (·.path)) ∧
        h' = (h.undeploy path).1) ∨
      ((∀ d, r ≠ .deploy d) ∧ (∀ path, r ≠ .undeploy path) ∧ a = none ∧ Turns h h') := by
  cases hh with
  | deploy d => exact .inl ⟨d, rfl, rfl, rfl⟩
  | undeploy path => exact .inr (.inl ⟨path, rfl, rfl, rfl⟩)
  | prepare m path =>
    exact .inr (.inr ⟨by simp, by simp, rfl, turns_prepare hcalm.keyed hcalm.quiet m path⟩)
  | redeploy m path =>
    exact .inr (.inr ⟨by simp, by simp, rfl, turns_redeploy hcalm.keyed hcalm.quiet m path⟩)
  | startAll machine moves hi =>
    exact .inr (.inr ⟨by simp, by simp, rfl, turns_startAll hcalm.keyed hcalm.quiet hi⟩)

theorem storedSettings_settle {rows : List DeploymentRow} (hs : h.Stores rows)
    (prep : Preparation) : (h.settle prep).storedSettings = h.storedSettings := by
  have hput : (h.insertContext prep.context).Stores rows := hs.of_database_eq rfl
  unfold settle
  rw [recordStartup_eq, hput.storedSettings_record]
  rfl

theorem storedSettings_renew {rows : List DeploymentRow} (hs : h.Stores rows)
    (prep : Preparation) : (h.renew prep).storedSettings = h.storedSettings := by
  have hput : (h.insertContext prep.context).Stores rows := hs.of_database_eq rfl
  unfold renew
  rw [recordStartup_eq, (hput.record _ _ _).storedSettings_record, hput.storedSettings_record]
  rfl

theorem Calm.turn (hcalm : h.Calm) (ht : Turn h h') : h'.Calm := by
  have hwrites := writes_of_turn hcalm.keyed ht
  obtain ⟨rows, hs, -⟩ := hcalm.mirrored
  have hsettings : h'.storedSettings = h.storedSettings := by
    cases ht with
    | tick => rfl
    | settle => exact storedSettings_settle hs _
    | renew => exact storedSettings_renew hs _
  exact ⟨hcalm.keyed.writes hwrites, hcalm.mirrored.writes hwrites, hcalm.quiet.turn ht,
    hsettings.trans hcalm.unset⟩

theorem Calm.turns (hcalm : h.Calm) (ht : Turns h h') : h'.Calm := by
  induction ht with
  | refl => exact hcalm
  | tail _ hturn ih => exact ih.turn hturn

theorem Calm.deploy (hcalm : h.Calm) (d : Descriptor) : (h.deploy d).1.Calm := by
  obtain ⟨rows, hs, -⟩ := hcalm.mirrored
  have hsettings : (h.deploy d).1.storedSettings = h.storedSettings := by
    rcases hs.deploy_cases d with ⟨e, -, he⟩ | ⟨path, -, -, he⟩ |
      ⟨c, stored, -, -, hs', hput, hok⟩
    · rw [he]
      rfl
    · rw [he]
      rfl
    · rw [hok]
      exact (hs'.storedSettings_record _ _ _).trans hput.storedSettings
  exact ⟨hcalm.keyed.write (.deploy h d), hcalm.mirrored.deploy d, hcalm.quiet.deploy d,
    hsettings.trans hcalm.unset⟩

theorem Calm.undeploy (hcalm : h.Calm) (path : ContextPath) : (h.undeploy path).1.Calm := by
  obtain ⟨rows, hs, -⟩ := hcalm.mirrored
  have hsettings : (h.undeploy path).1.storedSettings = h.storedSettings := by
    rcases hs.undeploy_cases path with ⟨-, he⟩ | ⟨c, removed, -, hs', htaken, hok⟩
    · rw [he]
    · rw [hok]
      exact (hs'.storedSettings_record _ _ _).trans htaken.storedSettings
  exact ⟨hcalm.keyed.undeploy path, hcalm.mirrored.undeploy path, hcalm.quiet.undeploy path,
    hsettings.trans hcalm.unset⟩

theorem Calm.handles (hcalm : h.Calm) {r : Request} {a : Answer} (hh : Handles h r a h') :
    h'.Calm := by
  rcases hcalm.handles_cases hh with ⟨d, -, -, rfl⟩ | ⟨path, -, -, rfl⟩ | ⟨-, -, -, ht⟩
  · exact hcalm.deploy d
  · exact hcalm.undeploy path
  · exact hcalm.turns ht

/-- A host that was opened from a fresh database is calm, if its processors are quiet. -/
theorem calm_of_restore {blank db : Database} {registry : ProcessorRegistry} {supply : Supply}
    (hblank : blank.tables = .empty) (hmade : blank.makeTables = .ok db)
    (hopened : restore db registry supply = .ok h) (hquiet : registry.IsQuiet) : h.Calm := by
  have hkeyed := keyed_restore hopened
  have hmirrored := mirrored_of_restore hblank hmade hopened
  have hq : h.Quiet := .restore hopened hquiet
  obtain ⟨-, ht⟩ := tables_of_makeTables hblank hmade
  rw [restore_of_noRows ht] at hopened
  obtain rfl := Except.ok.inj hopened
  refine ⟨hkeyed, hmirrored, hq, ?_⟩
  simp only [storedSettings, tables, ht, Option.getD_some]

theorem Calm.run (hcalm : h.Calm) {requests : List Request} {answers : List Answer}
    (hrun : Run h requests answers h') : h'.Calm := by
  induction hrun with
  | nil => exact hcalm
  | cons hh _ ih => exact ih (hcalm.handles hh)

/-- A host on a fresh database, with the processors that are always there. -/
def defaultHost : Host :=
  { ofSettings .default .default ⟨0, 0⟩ with database := some freshDatabase }

theorem restore_defaultHost : restore freshDatabase .default ⟨0, 0⟩ = .ok defaultHost :=
  restore_of_noRows rfl .default ⟨0, 0⟩

theorem calm_defaultHost : defaultHost.Calm :=
  have hmade : Database.inMemory.makeTables = .ok freshDatabase := by
    rfl
  calm_of_restore rfl hmade restore_defaultHost ProcessorRegistry.isQuiet_default

end Host

end Hosting
