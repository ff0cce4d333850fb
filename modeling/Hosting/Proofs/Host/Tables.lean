import Hosting.Proofs.Context.Lifecycle
import Hosting.Proofs.Host.Runs

/-! # The tables in memory

    Contexts and descriptors are kept in two tables, which the operations change one after
    the other. What an operation does to them does not depend on the database: a failed
    statement comes after the change, and is only reported.

    - `register_cases` to `finishRedeploy_cases`: each part of an operation leaves the tables
      alone or makes one change to them.
    - `Keyed`: everything is kept under its own path, both tables have the same paths, and
      every context is settled.
    - `Write`, `writes_of_step`: an operation is a sequence of writes, of seven kinds. What every
      write keeps, every run keeps.
    - `keyed_of_reachable`: the tables are keyed after every run, for any database, any
      processors and any order within a start of all.
-/

namespace Hosting

namespace Host

/-! ### What the operations do to the tables in memory -/

@[simp] theorem contexts_insertContext (h : Host) (c : Context) :
    (h.insertContext c).contexts = h.contexts.insert c.path c := rfl

@[simp] theorem descriptors_insertContext (h : Host) (c : Context) :
    (h.insertContext c).descriptors = h.descriptors := rfl

/-- Writing an event changes the database and the supply at most. -/
theorem record_keeps {α : Type} (f : Host → α)
    (hf : ∀ (h : Host) (database : Option Database) (supply : Supply),
      f { h with database, supply } = f h)
    (h : Host) (path : ContextPath) (event : String) (details : Option String) :
    f (h.record path event details) = f h := by
  unfold record
  split
  · rfl
  · split
    · exact hf h h.database h.supply.next
    · exact hf h _ h.supply.next

/-- A statement changes the database at most. -/
theorem onDatabase_keeps {α : Type} (f : Host → α)
    (hf : ∀ (h : Host) (database : Option Database), f { h with database } = f h)
    (h : Host) (g : Tables → Except Failure Tables) : f (h.onDatabase g).1 = f h := by
  unfold onDatabase
  split
  · rfl
  · split
    · rfl
    · exact hf h _

@[simp] theorem contexts_record (h : Host) (path : ContextPath) (event : String)
    (details : Option String) : (h.record path event details).contexts = h.contexts :=
  record_keeps (·.contexts) (fun _ _ _ => rfl) h path event details

@[simp] theorem descriptors_record (h : Host) (path : ContextPath) (event : String)
    (details : Option String) : (h.record path event details).descriptors = h.descriptors :=
  record_keeps (·.descriptors) (fun _ _ _ => rfl) h path event details

@[simp] theorem contexts_onDatabase (h : Host) (f : Tables → Except Failure Tables) :
    (h.onDatabase f).1.contexts = h.contexts :=
  onDatabase_keeps (·.contexts) (fun _ _ => rfl) h f

@[simp] theorem descriptors_onDatabase (h : Host) (f : Tables → Except Failure Tables) :
    (h.onDatabase f).1.descriptors = h.descriptors :=
  onDatabase_keeps (·.descriptors) (fun _ _ => rfl) h f

@[simp] theorem contexts_storeDeployment (h : Host) (path : ContextPath) (d : Descriptor) :
    (h.storeDeployment path d).1.contexts = h.contexts := by
  unfold storeDeployment
  split <;> simp

@[simp] theorem descriptors_storeDeployment (h : Host) (path : ContextPath) (d : Descriptor) :
    (h.storeDeployment path d).1.descriptors = h.descriptors := by
  unfold storeDeployment
  split <;> simp

@[simp] theorem contexts_saveSettings (h : Host) : h.saveSettings.1.contexts = h.contexts := by
  unfold saveSettings
  split
  · rfl
  · split <;> rfl

@[simp] theorem descriptors_saveSettings (h : Host) :
    h.saveSettings.1.descriptors = h.descriptors := by
  unfold saveSettings
  split
  · rfl
  · split <;> rfl

/-- Registration refuses, or takes in a context whose path was free. -/
theorem register_cases (h : Host) (d : Descriptor) :
    (∃ e, h.register d = (h.tick, .error e)) ∨
      ∃ c, Context.ofDescriptor h.supply.id h.supply.now d = .ok c ∧
        h.contexts.get? c.path = none ∧
        h.register d = ((h.tick.insertContext c).insertDescriptor c.path d, .ok c.path) := by
  unfold register
  cases hc : Context.ofDescriptor h.supply.id h.supply.now d with
  | error e => exact .inl ⟨e, rfl⟩
  | ok c =>
    simp only
    split
    · exact .inl ⟨_, rfl⟩
    · next hfree =>
      refine .inr ⟨c, rfl, ?_, rfl⟩
      simpa [PathTable.contains] using hfree

/-- A deployment registers, stores and writes an event, and goes no further than the first of these
    that is refused. -/
theorem deploy_parts (h : Host) (d : Descriptor) :
    (h.deploy d).1 = (h.register d).1 ∨ ∃ path,
      (h.deploy d).1 = ((h.register d).1.storeDeployment path d).1 ∨
        (h.deploy d).1 =
          ((h.register d).1.storeDeployment path d).1.record path "deployed" none := by
  unfold deploy
  cases hr : h.register d with
  | mk h₁ result =>
    cases result with
    | error e => exact .inl rfl
    | ok path =>
      refine .inr ⟨path, ?_⟩
      simp only
      cases hs : h₁.storeDeployment path d with
      | mk h₂ stored =>
        cases stored with
        | error e => exact .inl rfl
        | ok _ => exact .inr rfl

/-- Deployment leaves the tables in memory as registration does, whatever the database says. -/
theorem tables_deploy (h : Host) (d : Descriptor) :
    (h.deploy d).1.contexts = (h.register d).1.contexts ∧
      (h.deploy d).1.descriptors = (h.register d).1.descriptors := by
  rcases deploy_parts h d with hr | ⟨path, hs | hs⟩
  · rw [hr]
    exact ⟨rfl, rfl⟩
  · rw [hs]
    exact ⟨contexts_storeDeployment .., descriptors_storeDeployment ..⟩
  · rw [hs, contexts_record, descriptors_record]
    exact ⟨contexts_storeDeployment .., descriptors_storeDeployment ..⟩

/-- An undeployment takes the path out of both tables, deletes the stored deployment and writes an
    event, and goes no further than the first of these that is refused. -/
theorem undeploy_parts (h : Host) (path : ContextPath) :
    (h.undeploy path).1 = h ∨
      ∃ f, (h.undeploy path).1 =
          (((h.removeContext path).removeDescriptor path).onDatabase f).1 ∨
        (h.undeploy path).1 =
          (((h.removeContext path).removeDescriptor path).onDatabase f).1.record path
            "undeployed" none := by
  unfold undeploy
  split
  · exact .inl rfl
  · refine .inr ⟨fun tables => tables.deleteDeployment path, ?_⟩
    split
    · next hd => exact .inl (by rw [hd])
    · next hd => exact .inr (by rw [hd])

/-- Undeployment does nothing, or takes the path out of both tables. -/
theorem tables_undeploy (h : Host) (path : ContextPath) :
    (h.undeploy path).1 = h ∨
      (h.undeploy path).1.contexts = h.contexts.erase path ∧
        (h.undeploy path).1.descriptors = h.descriptors.erase path := by
  -- the statement comes after both removals, and touches neither table
  rcases undeploy_parts h path with hsame | ⟨f, hs | hs⟩
  · exact .inl hsame
  · right
    rw [hs]
    exact ⟨contexts_onDatabase .., descriptors_onDatabase ..⟩
  · right
    rw [hs, contexts_record, descriptors_record]
    exact ⟨contexts_onDatabase .., descriptors_onDatabase ..⟩

/-- Putting a copy back is refused, or takes the place of the deployment it was made from. -/
theorem storePrepared_cases (h : Host) (id : DeploymentId) (c : Context) :
    (∃ e, h.storePrepared id c = (h, .error e)) ∨
      ∃ current, h.contexts.get? c.path = some current ∧ current.id = id ∧
        h.storePrepared id c = (h.insertContext c, .ok ()) := by
  unfold storePrepared
  split
  · exact .inl ⟨_, rfl⟩
  · next current hcurrent =>
    split
    · next hid => exact .inr ⟨current, hcurrent, hid, rfl⟩
    · exact .inl ⟨_, rfl⟩

theorem storePrepared_of_current {h : Host} {id : DeploymentId} {c current : Context}
    (hcurrent : h.contexts.get? c.path = some current) (hid : current.id = id) :
    h.storePrepared id c = (h.insertContext c, .ok ()) := by
  unfold storePrepared
  rw [hcurrent]
  simp only [hid, if_true]

/-- A preparation that has ended leaves the host as it is, or puts the copy back and reports. -/
theorem finishPrepare_cases (h : Host) (path : ContextPath) (id : DeploymentId)
    (prep : Preparation) :
    (h.finishPrepare path id prep).1 = h ∨
      (∀ text, prep.outcome ≠ .error (.alreadyStarted text)) ∧
        (∃ current, h.contexts.get? prep.context.path = some current ∧ current.id = id) ∧
        (h.finishPrepare path id prep).1 =
          (h.insertContext prep.context).recordStartup path prep.outcome := by
  unfold finishPrepare
  split
  · exact .inl rfl
  · next hnot =>
    rcases storePrepared_cases h id prep.context with ⟨e, he⟩ | ⟨current, hcurrent, hid, hok⟩
    · rw [he]
      exact .inl rfl
    · rw [hok]
      exact .inr ⟨hnot, ⟨current, hcurrent, hid⟩, rfl⟩

/-- Preparing a path does nothing where nothing is registered. Otherwise the calls are made and
    the preparation is ended. -/
theorem prepare_cases (h : Host) (m : Machine) (path : ContextPath) :
    (h.prepare m path).1 = h ∨
      ∃ c, h.contexts.get? path = some c ∧
        (h.prepare m path).1 =
          ((h.tick.performAll (h.preparationOf m c).calls).finishPrepare path c.id
            (h.preparationOf m c)).1 := by
  unfold prepare
  split
  · exact .inl rfl
  · next c hc => exact .inr ⟨c, hc, rfl⟩

/-- A redeployment does nothing, or makes a context from the stored descriptor, prepares it, makes
    the calls, and puts it in place of whatever is registered by then. -/
theorem redeploy_cases (h : Host) (m : Machine) (path : ContextPath) :
    (h.redeploy m path).1 = h ∨ (h.redeploy m path).1 = h.tick ∨
      ∃ d c, h.descriptors.get? path = some d ∧
        Context.ofDescriptor h.supply.id h.supply.now d = .ok c ∧
        (h.redeploy m path).1 =
          ((h.tick.performAll (h.preparationOf m c).calls).finishRedeploy path
            (h.preparationOf m c)).1 := by
  unfold redeploy
  split
  · exact .inl rfl
  · next d hd =>
    split
    · exact .inr (.inl rfl)
    · next c hc => exact .inr (.inr ⟨d, c, hd, hc, rfl⟩)

/-- The end of a redeployment is refused where the path was taken out, and puts the new context in
    otherwise. -/
theorem finishRedeploy_cases (h : Host) (path : ContextPath) (prep : Preparation) :
    (h.finishRedeploy path prep).1 = h ∨
      (∃ current, h.contexts.get? path = some current) ∧
        (h.finishRedeploy path prep).1 =
          ({ h with contexts := h.contexts.insert path prep.context }.record path
            "redeployed" none).recordStartup path prep.outcome := by
  unfold finishRedeploy
  split
  · next hin =>
    unfold PathTable.contains at hin
    exact .inr ⟨Option.isSome_iff_exists.1 hin, rfl⟩
  · exact .inl rfl

/-- One change of a host. Operations differ in which of these they make, and when. -/
inductive Write : Host → Host → Prop where
  | deploy (h : Host) (d : Descriptor) : Write h (h.deploy d).1
  | undeploy (h : Host) (path : ContextPath) : Write h (h.undeploy path).1
  | tick (h : Host) : Write h h.tick
  /-- A settled context takes the place of one for the same path. -/
  | replace (h : Host) (c : Context) : c.IsSettled →
      (∃ current, h.contexts.get? c.path = some current) → Write h (h.insertContext c)
  | record (h : Host) (path : ContextPath) (event : String) (details : Option String) :
      Write h (h.record path event details)
  | updateSettings (h : Host) (f : Settings → Settings) : Write h (h.updateSettings f)
  | saveSettings (h : Host) : Write h h.saveSettings.1

/-- Changes one after the other. -/
def Writes : Host → Host → Prop := Relation.ReflTransGen Write

/-! ### The invariant -/

/-- What holds of the two tables between operations. -/
structure Keyed (h : Host) : Prop where
  context_path {p : ContextPath} {c : Context} : h.contexts.get? p = some c → c.path = p
  descriptor_path {p : ContextPath} {d : Descriptor} :
    h.descriptors.get? p = some d → ContextPath.parse d.contextPath = .ok p
  same_paths (p : ContextPath) : (h.contexts.get? p).isSome = (h.descriptors.get? p).isSome
  settled {p : ContextPath} {c : Context} : h.contexts.get? p = some c → c.IsSettled

namespace Keyed

variable {h h' : Host}

theorem of_tables_eq (hk : h.Keyed) (hcontexts : h'.contexts = h.contexts)
    (hdescriptors : h'.descriptors = h.descriptors) : h'.Keyed := by
  constructor
  · intro p c hc
    rw [hcontexts] at hc
    exact hk.context_path hc
  · intro p d hd
    rw [hdescriptors] at hd
    exact hk.descriptor_path hd
  · intro p
    rw [hcontexts, hdescriptors]
    exact hk.same_paths p
  · intro p c hc
    rw [hcontexts] at hc
    exact hk.settled hc

theorem tick (hk : h.Keyed) : h.tick.Keyed :=
  hk.of_tables_eq rfl rfl

/-- An application comes in. -/
theorem insert {c : Context} {d : Descriptor} (hk : h.Keyed) (hc : c.IsSettled)
    (hd : ContextPath.parse d.contextPath = .ok c.path) :
    ((h.insertContext c).insertDescriptor c.path d).Keyed := by
  constructor
  · intro p c' hc'
    rw [insertDescriptor, contexts_insertContext, PathTable.get?_insert] at hc'
    split at hc'
    · next hp =>
      obtain rfl := Option.some.inj hc'
      exact hp.symm
    · exact hk.context_path hc'
  · intro p d' hd'
    rw [insertDescriptor, descriptors_insertContext, PathTable.get?_insert] at hd'
    split at hd'
    · next hp =>
      obtain rfl := Option.some.inj hd'
      rw [hd, hp]
    · exact hk.descriptor_path hd'
  · intro p
    simp only [insertDescriptor, contexts_insertContext, descriptors_insertContext,
      PathTable.get?_insert]
    split
    · rfl
    · exact hk.same_paths p
  · intro p c' hc'
    rw [insertDescriptor, contexts_insertContext, PathTable.get?_insert] at hc'
    split at hc'
    · obtain rfl := Option.some.inj hc'
      exact hc
    · exact hk.settled hc'

/-- An application goes. -/
theorem erase {path : ContextPath} (hk : h.Keyed)
    (hcontexts : h'.contexts = h.contexts.erase path)
    (hdescriptors : h'.descriptors = h.descriptors.erase path) : h'.Keyed := by
  constructor
  · intro p c hc
    rw [hcontexts, PathTable.get?_erase] at hc
    split at hc
    · simp at hc
    · exact hk.context_path hc
  · intro p d hd
    rw [hdescriptors, PathTable.get?_erase] at hd
    split at hd
    · simp at hd
    · exact hk.descriptor_path hd
  · intro p
    simp only [hcontexts, hdescriptors, PathTable.get?_erase]
    split
    · rfl
    · exact hk.same_paths p
  · intro p c hc
    rw [hcontexts, PathTable.get?_erase] at hc
    split at hc
    · simp at hc
    · exact hk.settled hc

/-- A context takes the place of another. -/
theorem replace {c : Context} (hk : h.Keyed) (hc : c.IsSettled)
    (hin : ∃ current, h.contexts.get? c.path = some current) : (h.insertContext c).Keyed := by
  obtain ⟨current, hcurrent⟩ := hin
  -- the descriptor of the path is there already
  have hin : (h.descriptors.get? c.path).isSome = true := by
    rw [← hk.same_paths, hcurrent]
    rfl
  obtain ⟨d, hd⟩ := Option.isSome_iff_exists.1 hin
  -- and putting it in once more changes nothing
  have hsame : h.descriptors.insert c.path d = h.descriptors := by
    refine PathTable.ext_get? fun p => ?_
    rw [PathTable.get?_insert]
    split
    · next hp => rw [hp, hd]
    · rfl
  refine (hk.insert hc (hk.descriptor_path hd)).of_tables_eq rfl ?_
  exact hsame.symm

/-! ### Writes -/

theorem register (hk : h.Keyed) (d : Descriptor) : (h.register d).1.Keyed := by
  rcases register_cases h d with ⟨e, he⟩ | ⟨c, hc, -, hok⟩
  · rw [he]
    exact hk.tick
  · rw [hok]
    exact hk.tick.insert (Context.isSettled_ofDescriptor hc) (Context.ofDescriptor_spec hc).1

theorem undeploy (hk : h.Keyed) (path : ContextPath) : (h.undeploy path).1.Keyed := by
  rcases tables_undeploy h path with hsame | ⟨hcontexts, hdescriptors⟩
  · rw [hsame]
    exact hk
  · exact hk.erase hcontexts hdescriptors

theorem write (hk : h.Keyed) (hw : Write h h') : h'.Keyed := by
  cases hw with
  | deploy d => exact (hk.register d).of_tables_eq (tables_deploy h d).1 (tables_deploy h d).2
  | undeploy path => exact hk.undeploy path
  | tick => exact hk.tick
  | replace c hc hin => exact hk.replace hc hin
  | record path event details =>
    exact hk.of_tables_eq (contexts_record ..) (descriptors_record ..)
  | updateSettings f => exact hk.of_tables_eq rfl rfl
  | saveSettings => exact hk.of_tables_eq (contexts_saveSettings h) (descriptors_saveSettings h)

theorem writes (hk : h.Keyed) (hw : Writes h h') : h'.Keyed := by
  induction hw with
  | refl => exact hk
  | tail _ hwrite ih => exact ih.write hwrite

end Keyed

/-! ### Operations as writes -/

theorem writes_performAll (h : Host) (calls : List HostCall) :
    Writes h (h.performAll calls) :=
  changes_performAll Write.deploy Write.undeploy h calls

theorem write_recordStartup (h : Host) (path : ContextPath) (outcome : Except HostError Unit) :
    Write h (h.recordStartup path outcome) := by
  cases outcome with
  | ok _ => exact .record h path _ _
  | error e => exact .record h path _ _

theorem writes_prepare {h : Host} (hk : h.Keyed) (m : Machine) (path : ContextPath) :
    Writes h (h.prepare m path).1 := by
  rcases prepare_cases h m path with hsame | ⟨c, hc, hprep⟩
  · rw [hsame]
    exact .refl
  · have hcalls : Writes h (h.tick.performAll (h.preparationOf m c).calls) :=
      .head (.tick h) (writes_performAll _ _)
    have hprepared : (h.preparationOf m c).context.IsSettled := (hk.settled hc).prepare _ _
    rw [hprep]
    rcases finishPrepare_cases (h.tick.performAll (h.preparationOf m c).calls) path c.id
      (h.preparationOf m c) with hsame | ⟨-, ⟨current, hcurrent, -⟩, hput⟩
    · rw [hsame]
      exact hcalls
    · -- the path is still taken, by whatever the calls have left there
      rw [hput]
      exact (hcalls.tail (.replace _ _ hprepared ⟨current, hcurrent⟩)).tail
        (write_recordStartup ..)

theorem writes_redeploy {h : Host} (hk : h.Keyed) (m : Machine) (path : ContextPath) :
    Writes h (h.redeploy m path).1 := by
  rcases redeploy_cases h m path with hsame | hsame | ⟨d, c, hd, hc, hprep⟩
  · rw [hsame]
    exact .refl
  · rw [hsame]
    exact .single (.tick h)
  · have hcalls : Writes h (h.tick.performAll (h.preparationOf m c).calls) :=
      .head (.tick h) (writes_performAll _ _)
    have hprepared : (h.preparationOf m c).context.IsSettled :=
      (Context.isSettled_ofDescriptor hc).prepare _ _
    -- the stored descriptor makes a context for the path that it is stored under
    have hpath : (h.preparationOf m c).context.path = path := by
      have hparse := hk.descriptor_path hd
      rw [(Context.ofDescriptor_spec hc).1] at hparse
      exact (Context.prepare_path _ _ _).trans (Except.ok.inj hparse)
    rw [hprep]
    rcases finishRedeploy_cases (h.tick.performAll (h.preparationOf m c).calls) path
      (h.preparationOf m c) with hsame | ⟨hin, hput⟩
    · rw [hsame]
      exact hcalls
    · rw [hput]
      rw [← hpath] at hin ⊢
      exact ((hcalls.tail (.replace _ _ hprepared hin)).tail (.record ..)).tail
        (write_recordStartup ..)

theorem writes_putBack {task : StartupTask} (h : Host)
    (htask : task.preparation.context.IsSettled) : Writes h (h.putBack task) := by
  unfold putBack
  rcases storePrepared_cases h task.id task.preparation.context with ⟨e, he⟩ |
    ⟨current, hcurrent, -, hok⟩
  · rw [he]
    exact .single (write_recordStartup ..)
  · rw [hok]
    exact .tail (.single (.replace _ _ htask ⟨current, hcurrent⟩)) (write_recordStartup ..)

/-- A start of all, up to any of its moves. -/
theorem writes_startAll {h : Host} (hk : h.Keyed) {machine : Context → Machine}
    {moves left : List Move}
    (hi : Interleaved ((h.startupTasksOn machine).map StartupTask.moves) (moves ++ left)) :
    Writes h (h.tick.playAll moves) := by
  have hmoves : Writes h.tick (h.tick.playAll moves) := by
    refine changes_playAll Write.deploy Write.undeploy h.tick fun task htask h' => ?_
    obtain ⟨c, hc, rfl⟩ := task_of_interleaved hi (List.mem_append_left left htask)
    obtain ⟨p, hp⟩ := PathTable.mem_values_iff.1 (List.mem_filter.1 hc).1
    -- each copy was made from a context of the table, so it is settled
    exact writes_putBack h' ((hk.settled hp).prepare _ _)
  exact .head (.tick h) hmoves

/-- An operation is a sequence of writes. -/
theorem writes_of_step {h h' : Host} (hk : h.Keyed) (hs : Step h h') : Writes h h' := by
  cases hs with
  | deploy d => exact .single (.deploy h d)
  | undeploy path => exact .single (.undeploy h path)
  | prepare m path => exact writes_prepare hk m path
  | redeploy m path => exact writes_redeploy hk m path
  | startAll machine moves left hi => exact writes_startAll hk hi
  | calls made => exact .head (.tick h) (writes_performAll h.tick made)
  | updateSettings f => exact .single (.updateSettings h f)
  | saveSettings => exact .single (.saveSettings h)

theorem writes_of_steps {h h' : Host} (hk : h.Keyed) (hs : Steps h h') : Writes h h' := by
  induction hs with
  | refl => exact .refl
  | tail _ hstep ih =>
    -- the writes so far keep the tables keyed, as the next operation needs them
    exact ih.trans (writes_of_step (hk.writes ih) hstep)

/-! ### Runs -/

theorem keyed_ofSettings (settings : Settings) (registry : ProcessorRegistry) (supply : Supply) :
    (ofSettings settings registry supply).Keyed where
  context_path h := by simp [ofSettings] at h
  descriptor_path h := by simp [ofSettings] at h
  same_paths _ := rfl
  settled h := by simp [ofSettings] at h

/-- A restored host comes from an empty one by registration. Stored descriptors that are refused
    are passed over. -/
theorem restore_induction {motive : Host → Prop} {db : Database} {registry : ProcessorRegistry}
    {supply : Supply} {h : Host} (hr : restore db registry supply = .ok h)
    (hempty : ∀ settings, motive { ofSettings settings registry supply with database := some db })
    (hregister : ∀ h d, motive h → motive (h.register d).1) : motive h := by
  unfold restore at hr
  split at hr
  · simp at hr
  · split at hr
    · simp at hr
    · obtain rfl := Except.ok.inj hr
      exact List.foldlRecOn _ _ (hempty _) fun h hmotive d _ => hregister h d hmotive

theorem keyed_restore {db : Database} {registry : ProcessorRegistry} {supply : Supply} {h : Host}
    (hr : restore db registry supply = .ok h) : h.Keyed := by
  refine restore_induction hr (fun settings => ?_) fun h d hk => hk.register d
  exact (keyed_ofSettings settings registry supply).of_tables_eq rfl rfl

theorem Opened.keyed {h : Host} (ho : Opened h) : h.Keyed := by
  cases ho with
  | ofSettings settings registry supply => exact keyed_ofSettings settings registry supply
  | restore hr => exact keyed_restore hr

theorem keyed_of_reachable {h : Host} (hr : h.Reachable) : h.Keyed := by
  obtain ⟨opened, hopened, hsteps⟩ := hr
  exact hopened.keyed.writes (writes_of_steps hopened.keyed hsteps)

end Host

end Hosting
