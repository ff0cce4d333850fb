import Hosting.Proofs.Host.Deployments

/-! # Operations in parts

    While an operation prepares a context, the host goes on: other operations come to their
    ends, and others begin. Whatever order this takes, it is made of parts of operations,
    and each part makes one change to the tables or none. Ids are given out in order, and
    no part takes one back.

    - `Part`, `Parts`: what operations do, part by part; `parts_of_steps` takes a run apart.
    - `issued_of_part`: ids that were given out stay given out.
    - `contexts_of_part`, `descriptors_of_part`: what a part does to the tables.
    - `issued_of_reachable`: every id in the table was given out before.
-/

namespace Hosting.Host

variable {h h' : Host} {P : DeploymentId → Prop}

/-! ### Parts of operations -/

/-- A part of an operation that goes on beside others. The context that a redeployment puts in was
    made with an id that was given out before, and `P` holds of this id. -/
inductive Part (P : DeploymentId → Prop) : Host → Host → Prop where
  /-- A context is read, to be prepared. -/
  | tick (h : Host) : Part P h h.tick
  | deploy (h : Host) (d : Descriptor) : Part P h (h.deploy d).1
  | undeploy (h : Host) (path : ContextPath) : Part P h (h.undeploy path).1
  /-- A preparation ends, whenever it began. -/
  | finishPrepare (h : Host) (path : ContextPath) (id : DeploymentId) (prep : Preparation) :
      prep.context.id = id → Part P h (h.finishPrepare path id prep).1
  /-- A preparation of a start of all ends. -/
  | putBack (h : Host) (task : StartupTask) :
      task.preparation.context.id = task.id → Part P h (h.putBack task)
  /-- A redeployment ends. -/
  | finishRedeploy (h : Host) (path : ContextPath) (prep : Preparation) :
      prep.context.id.bits < h.supply.issued → P prep.context.id →
      Part P h (h.finishRedeploy path prep).1
  | updateSettings (h : Host) (f : Settings → Settings) : Part P h (h.updateSettings f)
  | saveSettings (h : Host) : Part P h h.saveSettings.1

/-- Parts of any operations, one after the other. -/
def Parts (P : DeploymentId → Prop) : Host → Host → Prop := Relation.ReflTransGen (Part P)

/-! ### Ids are given out in order -/

theorem issued_record (h : Host) (path : ContextPath) (event : String)
    (details : Option String) :
    h.supply.issued ≤ (h.record path event details).supply.issued := by
  unfold record
  split
  · exact Nat.le_refl _
  · split <;> exact Nat.le_succ _

theorem issued_recordStartup (h : Host) (path : ContextPath)
    (outcome : Except HostError Unit) :
    h.supply.issued ≤ (h.recordStartup path outcome).supply.issued := by
  rw [recordStartup_eq]
  exact issued_record ..

@[simp] theorem supply_onDatabase (h : Host) (f : Tables → Except Failure Tables) :
    (h.onDatabase f).1.supply = h.supply :=
  onDatabase_keeps (·.supply) (fun _ _ => rfl) h f

@[simp] theorem supply_storeDeployment (h : Host) (path : ContextPath) (d : Descriptor) :
    (h.storeDeployment path d).1.supply = h.supply := by
  unfold storeDeployment
  split <;> simp

@[simp] theorem supply_register (h : Host) (d : Descriptor) :
    (h.register d).1.supply = h.supply.next := by
  rcases register_cases h d with ⟨e, he⟩ | ⟨c, -, -, hok⟩
  · rw [he]
    rfl
  · rw [hok]
    rfl

/-- A deployment uses up an id, refused or not. -/
theorem issued_deploy (h : Host) (d : Descriptor) :
    h.supply.issued < (h.deploy d).1.supply.issued := by
  have hregister : h.supply.issued < (h.register d).1.supply.issued := by
    rw [supply_register]
    exact Nat.lt_succ_self _
  rcases deploy_parts h d with hr | ⟨path, hs | hs⟩
  · rw [hr]
    exact hregister
  · rw [hs, supply_storeDeployment]
    exact hregister
  · rw [hs]
    refine Nat.lt_of_lt_of_le ?_ (issued_record ..)
    rw [supply_storeDeployment]
    exact hregister

theorem issued_undeploy (h : Host) (path : ContextPath) :
    h.supply.issued ≤ (h.undeploy path).1.supply.issued := by
  have hremoved (f : Tables → Except Failure Tables) :
      (((h.removeContext path).removeDescriptor path).onDatabase f).1.supply = h.supply :=
    supply_onDatabase ..
  rcases undeploy_parts h path with hsame | ⟨f, hs | hs⟩
  · exact Nat.le_of_eq (by rw [hsame])
  · exact Nat.le_of_eq (by rw [hs, hremoved f])
  · rw [hs, ← hremoved f]
    exact issued_record ..

/-- No part takes ids back. -/
theorem issued_of_part (hp : Part P h h') : h.supply.issued ≤ h'.supply.issued := by
  cases hp with
  | tick => exact Nat.le_succ _
  | deploy d => exact Nat.le_of_lt (issued_deploy h d)
  | undeploy path => exact issued_undeploy h path
  | finishPrepare path id prep hid =>
    rcases finishPrepare_cases h path id prep with hsame | ⟨-, -, hput⟩
    · exact Nat.le_of_eq (by rw [hsame])
    · rw [hput]
      exact issued_recordStartup (h.insertContext prep.context) path prep.outcome
  | putBack task hid =>
    let c := task.preparation.context
    unfold putBack
    rcases storePrepared_cases h task.id c with ⟨e, he⟩ | ⟨_, -, -, hok⟩
    · rw [he]
      exact issued_recordStartup ..
    · rw [hok]
      exact issued_recordStartup (h.insertContext c) c.path task.preparation.outcome
  | finishRedeploy path prep hissued hP =>
    let put : Host := { h with contexts := h.contexts.insert path prep.context }
    rcases finishRedeploy_cases h path prep with hsame | ⟨-, hput⟩
    · exact Nat.le_of_eq (by rw [hsame])
    · rw [hput]
      have hrecord : h.supply.issued ≤ (put.record path "redeployed" none).supply.issued :=
        issued_record put path "redeployed" none
      exact Nat.le_trans hrecord (issued_recordStartup ..)
  | updateSettings f => exact Nat.le_refl _
  | saveSettings =>
    unfold saveSettings
    split
    · exact Nat.le_refl _
    · split <;> exact Nat.le_refl _

theorem issued_of_parts (hp : Parts P h h') : h.supply.issued ≤ h'.supply.issued := by
  induction hp with
  | refl => exact Nat.le_refl _
  | tail _ hpart ih => exact Nat.le_trans ih (issued_of_part hpart)

/-! ### What parts do to the tables -/

/-- A part leaves the contexts alone, takes one out, or puts one in. What it puts in is of the
    deployment that was there already, or has a new id, or comes from a redeployment. -/
theorem contexts_of_part (hp : Part P h h') :
    h'.contexts = h.contexts ∨ (∃ path, h'.contexts = h.contexts.erase path) ∨
      ∃ (path : ContextPath) (c : Context), h'.contexts = h.contexts.insert path c ∧
        ((∃ current, h.contexts.get? path = some current ∧ current.id = c.id) ∨
          c.id.bits < h'.supply.issued ∧ (c.id = h.supply.id ∨ P c.id)) := by
  cases hp with
  | tick => exact .inl rfl
  | deploy d =>
    have hissued := issued_deploy h d
    rw [(tables_deploy h d).1]
    rcases register_cases h d with ⟨e, he⟩ | ⟨c, hc, -, hok⟩
    · rw [he]
      exact .inl rfl
    · -- the new context has the id that the host gives out next
      obtain ⟨-, hid, -⟩ := Context.ofDescriptor_spec hc
      have hnew : c.id.bits < (h.deploy d).1.supply.issued := by
        rw [hid]
        exact hissued
      rw [hok]
      exact .inr (.inr ⟨c.path, c, rfl, .inr ⟨hnew, .inl hid⟩⟩)
  | undeploy path =>
    rcases tables_undeploy h path with hsame | ⟨hcontexts, -⟩
    · rw [hsame]
      exact .inl rfl
    · exact .inr (.inl ⟨path, hcontexts⟩)
  | finishPrepare path id prep hid =>
    rcases finishPrepare_cases h path id prep with hsame | ⟨-, ⟨current, hcurrent, hsame⟩, hput⟩
    · rw [hsame]
      exact .inl rfl
    · -- a copy has the id of what it was made from, and replaces nothing else
      rw [hput, contexts_recordStartup]
      exact .inr (.inr ⟨_, prep.context, rfl,
        .inl ⟨current, hcurrent, hsame.trans hid.symm⟩⟩)
  | putBack task hid =>
    unfold putBack
    rw [contexts_recordStartup]
    rcases storePrepared_cases h task.id task.preparation.context with ⟨e, he⟩ |
      ⟨current, hcurrent, hsame, hok⟩
    · rw [he]
      exact .inl rfl
    · rw [hok]
      exact .inr (.inr ⟨_, task.preparation.context, rfl,
        .inl ⟨current, hcurrent, hsame.trans hid.symm⟩⟩)
  | finishRedeploy path prep hissued hP =>
    have hle := issued_of_part (.finishRedeploy h path prep hissued hP)
    rcases finishRedeploy_cases h path prep with hsame | ⟨-, hput⟩
    · rw [hsame]
      exact .inl rfl
    · -- no ids are compared here, so all that is known is what the new one is
      have hcontexts : (h.finishRedeploy path prep).1.contexts =
          h.contexts.insert path prep.context := by
        rw [hput, contexts_recordStartup, contexts_record]
      exact .inr (.inr ⟨path, prep.context, hcontexts,
        .inr ⟨Nat.lt_of_lt_of_le hissued hle, .inr hP⟩⟩)
  | updateSettings f => exact .inl rfl
  | saveSettings => exact .inl (contexts_saveSettings h)

/-- A part changes the descriptors with the contexts only: one goes with its context, or one comes
    to a path that was free. -/
theorem descriptors_of_part (hp : Part P h h') :
    h'.descriptors = h.descriptors ∨
      (∃ path, h'.contexts = h.contexts.erase path ∧
        h'.descriptors = h.descriptors.erase path) ∨
      ∃ path d, h.contexts.get? path = none ∧ h'.descriptors = h.descriptors.insert path d := by
  cases hp with
  | tick => exact .inl rfl
  | deploy d =>
    rw [(tables_deploy h d).2]
    rcases register_cases h d with ⟨e, he⟩ | ⟨c, -, hfree, hok⟩
    · rw [he]
      exact .inl rfl
    · rw [hok]
      exact .inr (.inr ⟨c.path, d, hfree, rfl⟩)
  | undeploy path =>
    rcases tables_undeploy h path with hsame | hgone
    · rw [hsame]
      exact .inl rfl
    · exact .inr (.inl ⟨path, hgone⟩)
  | finishPrepare path id prep hid =>
    rcases finishPrepare_cases h path id prep with hsame | ⟨-, -, hput⟩
    · rw [hsame]
      exact .inl rfl
    · rw [hput, descriptors_recordStartup]
      exact .inl rfl
  | putBack task hid =>
    unfold putBack
    rw [descriptors_recordStartup]
    rcases storePrepared_cases h task.id task.preparation.context with ⟨e, he⟩ | ⟨_, -, -, hok⟩
    · rw [he]
      exact .inl rfl
    · rw [hok]
      exact .inl rfl
  | finishRedeploy path prep hissued hP =>
    rcases finishRedeploy_cases h path prep with hsame | ⟨-, hput⟩
    · rw [hsame]
      exact .inl rfl
    · rw [hput, descriptors_recordStartup, descriptors_record]
      exact .inl rfl
  | updateSettings f => exact .inl rfl
  | saveSettings => exact .inl (descriptors_saveSettings h)

/-! ### Operations, part by part -/

theorem parts_performAll (h : Host) (calls : List HostCall) :
    Parts P h (h.performAll calls) :=
  changes_performAll Part.deploy Part.undeploy h calls

/-- A start of all, up to any of its moves. -/
theorem parts_startAll {machine : Context → Machine} {moves left : List Move}
    (hi : Interleaved ((h.startupTasksOn machine).map StartupTask.moves) (moves ++ left)) :
    Parts P h.tick (h.tick.playAll moves) := by
  refine changes_playAll Part.deploy Part.undeploy h.tick fun task htask h' => ?_
  obtain ⟨c, -, rfl⟩ := task_of_interleaved hi (List.mem_append_left left htask)
  exact .single (.putBack h' _ (Context.prepare_id ..))

theorem parts_prepare (h : Host) (m : Machine) (path : ContextPath) :
    Parts P h (h.prepare m path).1 := by
  rcases prepare_cases h m path with hsame | ⟨c, -, hprep⟩
  · rw [hsame]
    exact .refl
  · rw [hprep]
    have hcalls : Parts P h (h.tick.performAll (h.preparationOf m c).calls) :=
      .head (.tick h) (parts_performAll ..)
    exact hcalls.tail (.finishPrepare _ path c.id _ (Context.prepare_id ..))

/-- A redeployment brings in the id that it began with. -/
theorem parts_redeploy (h : Host) (m : Machine) (path : ContextPath)
    (hP : P h.supply.id) : Parts P h (h.redeploy m path).1 := by
  rcases redeploy_cases h m path with hsame | hsame | ⟨d, c, -, hc, hprep⟩
  · rw [hsame]
    exact .refl
  · rw [hsame]
    exact .single (.tick h)
  · obtain ⟨-, hcid, -⟩ := Context.ofDescriptor_spec hc
    have hid : (h.preparationOf m c).context.id = h.supply.id :=
      (Context.prepare_id ..).trans hcid
    have hcalls : Parts P h.tick (h.tick.performAll (h.preparationOf m c).calls) :=
      parts_performAll ..
    have hissued : (h.preparationOf m c).context.id.bits <
        (h.tick.performAll (h.preparationOf m c).calls).supply.issued := by
      rw [hid]
      exact issued_of_parts hcalls
    rw [hprep]
    refine (hcalls.tail (.finishRedeploy _ path _ hissued ?_)).head (.tick h)
    rw [hid]
    exact hP

/-- An operation is a sequence of parts, and the ids it brings in are new. -/
theorem parts_of_step (hP : ∀ id : DeploymentId, h.supply.issued ≤ id.bits → P id)
    (hs : Step h h') : Parts P h h' := by
  cases hs with
  | deploy d => exact .single (.deploy h d)
  | undeploy path => exact .single (.undeploy h path)
  | prepare m path => exact parts_prepare h m path
  | redeploy m path => exact parts_redeploy h m path (hP _ (Nat.le_refl _))
  | startAll machine moves left hi => exact .head (.tick h) (parts_startAll hi)
  | calls made => exact .head (.tick h) (parts_performAll ..)
  | updateSettings f => exact .single (.updateSettings h f)
  | saveSettings => exact .single (.saveSettings h)

theorem parts_of_steps (hP : ∀ id : DeploymentId, h.supply.issued ≤ id.bits → P id)
    (hs : Steps h h') : Parts P h h' := by
  induction hs with
  | refl => exact .refl
  | tail _ hstep ih =>
    have hlater := issued_of_parts ih
    exact ih.trans (parts_of_step (fun id hid => hP id (Nat.le_trans hlater hid)) hstep)

/-- Operations that begin after an id was given out do not bring it in again. -/
theorem parts_ne_of_steps {id : DeploymentId} (hid : id.bits < h.supply.issued)
    (hs : Steps h h') : Parts (· ≠ id) h h' := by
  refine parts_of_steps (fun new hnew heq => ?_) hs
  rw [heq] at hnew
  exact absurd hid (Nat.not_lt_of_le hnew)

/-! ### Ids in the table -/

/-- Every id in the table was given out. -/
def Issued (h : Host) : Prop :=
  ∀ p c, h.contexts.get? p = some c → c.id.bits < h.supply.issued

theorem Issued.part (hi : h.Issued) (hp : Part P h h') : h'.Issued := by
  have hle := issued_of_part hp
  intro p c hc
  rcases contexts_of_part hp with heq | ⟨path, heq⟩ | ⟨path, new, heq, hnew⟩
  · rw [heq] at hc
    exact Nat.lt_of_lt_of_le (hi p c hc) hle
  · rw [heq, PathTable.get?_erase] at hc
    split at hc
    · simp at hc
    · exact Nat.lt_of_lt_of_le (hi p c hc) hle
  · rw [heq, PathTable.get?_insert] at hc
    split at hc
    · obtain rfl := Option.some.inj hc
      rcases hnew with ⟨current, hcurrent, hsame⟩ | ⟨hissued, -⟩
      · rw [← hsame]
        exact Nat.lt_of_lt_of_le (hi path current hcurrent) hle
      · exact hissued
    · exact Nat.lt_of_lt_of_le (hi p c hc) hle

theorem Issued.parts (hi : h.Issued) (hp : Parts P h h') : h'.Issued := by
  induction hp with
  | refl => exact hi
  | tail _ hpart ih => exact ih.part hpart

theorem Issued.register (hi : h.Issued) (d : Descriptor) : (h.register d).1.Issued := by
  intro p c hc
  have hold (hc : h.contexts.get? p = some c) : c.id.bits < h.supply.next.issued :=
    Nat.lt_succ_of_lt (hi p c hc)
  rw [supply_register]
  rcases register_cases h d with ⟨e, he⟩ | ⟨new, hnew, -, hok⟩
  · rw [he] at hc
    exact hold hc
  · rw [hok, insertDescriptor, contexts_insertContext, PathTable.get?_insert] at hc
    split at hc
    · obtain rfl := Option.some.inj hc
      obtain ⟨-, hid, -⟩ := Context.ofDescriptor_spec hnew
      rw [hid]
      exact Nat.lt_succ_self _
    · exact hold hc

theorem Opened.issued (ho : Opened h) : h.Issued := by
  cases ho with
  | ofSettings settings registry supply =>
    intro p c hc
    simp [Host.ofSettings] at hc
  | restore hr =>
    refine restore_induction hr (fun settings p c hc => ?_) fun h d hi => hi.register d
    simp [Host.ofSettings] at hc

theorem issued_of_reachable (hr : h.Reachable) : h.Issued := by
  obtain ⟨opened, hopened, hsteps⟩ := hr
  exact hopened.issued.parts (parts_of_steps (P := fun _ => True) (fun _ _ => trivial) hsteps)

end Hosting.Host
