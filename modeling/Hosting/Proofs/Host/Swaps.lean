import Hosting.Proofs.Host.Parts
import Hosting.Proofs.Host.Registry

/-! # Preparations beside other operations

    Between the moment in which a preparation reads a context and the moment in which its
    copy is stored, any parts of other operations may come. An id is given out once, so a
    deployment that went from the table never comes back to it, and comparing ids is enough
    to know that it is still the one that was read.

    - `carries_of_parts`: a deployment that is in the table was in it all the time.
    - `swapsOnly`: what storing a copy does, on any host.
    - `preparation_swaps_only`: a copy replaces the deployment that it was made from, and
      nothing else.
-/

namespace Hosting.Host

variable {h h' : Host}

/-! ### A deployment that is still there -/

/-- The context of a path is of this deployment. -/
def Carries (h : Host) (path : ContextPath) (id : DeploymentId) : Prop :=
  ∃ current, h.contexts.get? path = some current ∧ current.id = id

/-- No part brings in an id that was given out before, except where it was. -/
theorem carries_of_part {path : ContextPath} {id : DeploymentId}
    (hid : id.bits < h.supply.issued) (hp : Part (· ≠ id) h h') (hc : h'.Carries path id) :
    h.Carries path id := by
  obtain ⟨current, hcurrent, hsame⟩ := hc
  -- only a context that the part puts in at this path could be new there
  rcases contexts_of_part hp with heq | ⟨gone, heq⟩ | ⟨put, new, heq, hnew⟩
  · rw [heq] at hcurrent
    exact ⟨current, hcurrent, hsame⟩
  · rw [heq, PathTable.get?_erase] at hcurrent
    split at hcurrent
    · simp at hcurrent
    · exact ⟨current, hcurrent, hsame⟩
  · rw [heq, PathTable.get?_insert] at hcurrent
    split at hcurrent
    · next hpath =>
      obtain rfl := Option.some.inj hcurrent
      rcases hnew with ⟨before, hbefore, hkept⟩ | ⟨-, hsupply | hother⟩
      · rw [hpath]
        exact ⟨before, hbefore, hkept.trans hsame⟩
      · -- the next id is not one that was given out
        rw [← hsame, hsupply] at hid
        exact absurd hid (Nat.lt_irrefl _)
      · exact absurd hsame hother
    · exact ⟨current, hcurrent, hsame⟩

/-- A deployment that is there in the end was there all the time. -/
theorem carries_of_parts {path : ContextPath} {id : DeploymentId}
    (hid : id.bits < h.supply.issued) (hp : Parts (· ≠ id) h h') (hc : h'.Carries path id) :
    h.Carries path id := by
  induction hp with
  | refl => exact hc
  | tail hparts hpart ih =>
    have hissued := Nat.lt_of_lt_of_le hid (issued_of_parts hparts)
    exact ih (carries_of_part hissued hpart hc)

/-! ### Storing a copy -/

theorem storePrepared_of_carries {id : DeploymentId} {c : Context} (hc : h.Carries c.path id) :
    h.storePrepared id c = (h.insertContext c, .ok ()) := by
  obtain ⟨current, hcurrent, hid⟩ := hc
  exact storePrepared_of_current hcurrent hid

theorem storePrepared_of_gone {id : DeploymentId} {c : Context} (hc : ¬ h.Carries c.path id) :
    ∃ e, h.storePrepared id c = (h, .error e) := by
  rcases storePrepared_cases h id c with he | ⟨current, hcurrent, hid, -⟩
  · exact he
  · exact absurd ⟨current, hcurrent, hid⟩ hc

/-- The copy of a preparation takes the place of the deployment that it was made from, and of
    nothing else. -/
structure SwapsOnly (h : Host) (path : ContextPath) (id : DeploymentId) (prep : Preparation) :
    Prop where
  putBack : h.Carries path id →
    (h.putBack ⟨id, prep⟩).contexts = h.contexts.insert path prep.context
  /-- A preparation that was refused, for a context that was started, stores nothing at all. -/
  finishPrepare : h.Carries path id → (∀ text, prep.outcome ≠ .error (.alreadyStarted text)) →
    (h.finishPrepare path id prep).1.contexts = h.contexts.insert path prep.context
  putBack_gone : ¬ h.Carries path id → (h.putBack ⟨id, prep⟩).contexts = h.contexts
  /-- Nothing is written either. -/
  finishPrepare_gone : ¬ h.Carries path id → ∃ e, h.finishPrepare path id prep = (h, .error e)

theorem swapsOnly (h : Host) {path : ContextPath} {prep : Preparation}
    (hpath : prep.context.path = path) (id : DeploymentId) : h.SwapsOnly path id prep := by
  subst hpath
  -- a start of all and a preparation on its own store in the same way, and differ in their reports
  constructor
  case putBack =>
    intro hc
    unfold Host.putBack
    rw [contexts_recordStartup, storePrepared_of_carries hc, contexts_insertContext]
  case finishPrepare =>
    intro hc hnot
    unfold Host.finishPrepare
    split
    · next text hout => exact absurd hout (hnot text)
    · rw [storePrepared_of_carries hc]
      simp only [contexts_recordStartup, contexts_insertContext]
  case putBack_gone =>
    intro hc
    obtain ⟨e, he⟩ := storePrepared_of_gone hc
    unfold Host.putBack
    rw [contexts_recordStartup, he]
  case finishPrepare_gone =>
    intro hc
    obtain ⟨e, he⟩ := storePrepared_of_gone hc
    unfold Host.finishPrepare
    split
    · exact ⟨_, rfl⟩
    · rw [he]
      exact ⟨e, rfl⟩

/-- A context is read and prepared, and parts of other operations come in between: the calls of its
    own processors, the moves of a start of all, or any operations. When the copy is stored, it
    replaces the deployment that was read, if that is there. Where this was gone at any moment
    in between, it is not there, the table stays as it is, and the preparation fails without an
    event. The two assumptions hold in every reachable host (`Keyed.context_path`,
    `issued_of_reachable`). -/
theorem preparation_swaps_only {path : ContextPath} {c : Context}
    (hc : h.contexts.get? path = some c) (hpath : c.path = path)
    (hid : c.id.bits < h.supply.issued) (m : Machine) :
    let prep := h.preparationOf m c
    h.prepare m path = (h.tick.performAll prep.calls).finishPrepare path c.id prep ∧
      Parts (· ≠ c.id) h.tick (h.tick.performAll prep.calls) ∧
      (∀ (machine : Context → Machine) (moves left : List Move), machine c = m →
        c ∈ h.pending →
        Interleaved ((h.startupTasksOn machine).map StartupTask.moves) (moves ++ left) →
        ⟨c.id, prep⟩ ∈ h.startupTasksOn machine ∧
          Parts (· ≠ c.id) h.tick (h.tick.playAll moves)) ∧
      (∀ h', Steps h.tick h' → Parts (· ≠ c.id) h.tick h') ∧
      ∀ between h', Parts (· ≠ c.id) h.tick between → Parts (· ≠ c.id) between h' →
        h'.SwapsOnly path c.id prep ∧ (¬ between.Carries path c.id → ¬ h'.Carries path c.id) := by
  intro prep
  have hprep : prep.context.path = path := (Context.prepare_path ..).trans hpath
  have hread : c.id.bits < h.tick.supply.issued := Nat.lt_succ_of_lt hid
  refine ⟨?_, parts_performAll .., ?_, fun h' hsteps => parts_ne_of_steps hread hsteps, ?_⟩
  · unfold prepare
    rw [hc]
  · intro machine moves left hm hpending hi
    refine ⟨List.mem_map.2 ⟨c, hpending, ?_⟩, parts_startAll hi⟩
    rw [hm]
    rfl
  · intro between h' hbefore hafter
    have hissued := Nat.lt_of_lt_of_le hread (issued_of_parts hbefore)
    exact ⟨swapsOnly h' hprep c.id,
      fun hgone hthere => hgone (carries_of_parts hissued hafter hthere)⟩

/-- A host with an application at `/A`. -/
def occupiedHost : Host :=
  (freshHost.deploy (.ofBase "/A" "/srv/a")).1

theorem reachable_occupiedHost : occupiedHost.Reachable :=
  ⟨freshHost, .restore restore_freshHost, .single (.deploy _ _)⟩

/-- The same host after the application was read, undeployed, and deployed again. -/
def reoccupiedHost : Host :=
  ((occupiedHost.tick.undeploy Sample.pathA).1.deploy (.ofBase "/A" "/srv/a")).1

/-- The copy of the first deployment does not replace the second. -/
theorem preparation_swaps_only_reoccupied :
    ∃ c, occupiedHost.contexts.get? Sample.pathA = some c ∧ c.path = Sample.pathA ∧
      c.id.bits < occupiedHost.supply.issued ∧
      reoccupiedHost.contexts.contains Sample.pathA = true ∧
      ∃ e, reoccupiedHost.finishPrepare Sample.pathA c.id
        (occupiedHost.preparationOf Sample.machine c) = (reoccupiedHost, .error e) := by
  have hin : (occupiedHost.contexts.get? Sample.pathA).isSome = true := by
    rfl
  obtain ⟨c, hc⟩ := Option.isSome_iff_exists.1 hin
  have hpath : c.path = Sample.pathA :=
    (keyed_of_reachable reachable_occupiedHost).context_path hc
  have hid : c.id.bits < occupiedHost.supply.issued :=
    issued_of_reachable reachable_occupiedHost _ c hc
  let between := (occupiedHost.tick.undeploy Sample.pathA).1
  have hgone : ¬ between.Carries Sample.pathA c.id := by
    rintro ⟨current, hcurrent, -⟩
    have hnone : between.contexts.get? Sample.pathA = none := by
      rfl
    rw [hnone] at hcurrent
    simp at hcurrent
  obtain ⟨-, -, -, -, hall⟩ := preparation_swaps_only hc hpath hid Sample.machine
  obtain ⟨hswaps, habsent⟩ := hall between reoccupiedHost
    (.single (.undeploy _ _)) (.single (.deploy _ _))
  exact ⟨c, hc, hpath, hid, rfl, hswaps.finishPrepare_gone (habsent hgone)⟩

end Hosting.Host
