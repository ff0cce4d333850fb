import Hosting.Proofs.Host.Swaps

/-! # Redeployments beside other operations

    A redeployment reads the descriptor of a path, prepares a new context, and puts it in if
    anything is registered under the path by then. It does not compare what it read with
    what is there. As long as the path is not undeployed meanwhile, its descriptor stays the
    same, and the context that comes in is the right one. Once it was undeployed and
    deployed again, the newer registration is overwritten with the older application.

    - `Trail`: parts of operations, with the hosts that they go through.
    - `descriptor_of_trail`: a path that stays registered keeps its descriptor.
    - `RedeploysCurrent`: what a redeployment should do where it ends.
    - `redeploys_current_iff`: it does so exactly when the path stayed registered, or is free
      in the end.
    - `redeploy_not_current`: a processor that replaces its own application is undone.
-/

namespace Hosting

/-! ### What a context was built from -/

/-- The context for a descriptor, prepared in any way. -/
def Context.IsBuiltFrom (c : Context) (d : Descriptor) : Prop :=
  ∃ id made env now new, Context.ofDescriptor id made d = .ok new ∧
    c = (new.prepare env now).context

/-- A context asks for the processors that its descriptor names. -/
theorem Context.IsBuiltFrom.identifiers {c : Context} {d : Descriptor} (hb : c.IsBuiltFrom d) :
    c.identifiers = d.processors := by
  obtain ⟨id, made, env, now, new, hnew, rfl⟩ := hb
  have hkept : (new.prepare env now).context.identifiers = new.identifiers :=
    prepare_keeps (·.identifiers) (fun _ => rfl) (fun _ _ _ => rfl) env now
  rw [hkept]
  unfold Context.ofDescriptor at hnew
  split at hnew
  · simp at hnew
  · obtain rfl := Except.ok.inj hnew
    rfl

namespace Host

variable {h h' : Host} {P : DeploymentId → Prop}

/-! ### Trails -/

/-- Parts of operations one after the other, and the hosts on the way, with the first and the
    last. -/
inductive Trail (P : DeploymentId → Prop) : Host → List Host → Host → Prop where
  | here (h : Host) : Trail P h [h] h
  | step {h h₁ h₂ : Host} {hosts : List Host} :
      Part P h h₁ → Trail P h₁ hosts h₂ → Trail P h (h :: hosts) h₂

theorem exists_trail (hp : Parts P h h') : ∃ hosts, Trail P h hosts h' := by
  induction hp using Relation.ReflTransGen.head_induction_on with
  | refl => exact ⟨_, .here h'⟩
  | head hpart _ ih =>
    obtain ⟨hosts, htrail⟩ := ih
    exact ⟨_, .step hpart htrail⟩

theorem Trail.start_mem {hosts : List Host} (ht : Trail P h hosts h') : h ∈ hosts := by
  cases ht <;> simp

/-- Every host on a trail is between its ends. -/
theorem Trail.parts_of_mem {hosts : List Host} (ht : Trail P h hosts h') :
    ∀ x ∈ hosts, Parts P h x ∧ Parts P x h' := by
  induction ht with
  | here h =>
    intro x hx
    obtain rfl := List.mem_singleton.1 hx
    exact ⟨.refl, .refl⟩
  | @step h h₁ h₂ hosts hpart htrail ih =>
    intro x hx
    rcases List.mem_cons.1 hx with rfl | hx
    · -- the rest of the trail goes on from the first part
      exact ⟨.refl, .head hpart (ih h₁ htrail.start_mem).2⟩
    · exact ⟨.head hpart (ih x hx).1, (ih x hx).2⟩

/-- Something is registered under the path. -/
def Occupied (h : Host) (path : ContextPath) : Prop :=
  ∃ current, h.contexts.get? path = some current

theorem descriptor_of_part {path : ContextPath} (hp : Part P h h') (hbefore : h.Occupied path)
    (hafter : h'.Occupied path) : h'.descriptors.get? path = h.descriptors.get? path := by
  rcases descriptors_of_part hp with heq | ⟨gone, hcontexts, heq⟩ | ⟨new, d, hfree, heq⟩
  · rw [heq]
  · -- what was taken out is not this path
    obtain ⟨current, hcurrent⟩ := hafter
    rw [hcontexts, PathTable.get?_erase] at hcurrent
    rw [heq, PathTable.get?_erase]
    split at hcurrent
    · simp at hcurrent
    · next hne => rw [if_neg hne]
  · obtain ⟨current, hcurrent⟩ := hbefore
    rw [heq, PathTable.get?_insert, if_neg]
    rintro rfl
    rw [hfree] at hcurrent
    simp at hcurrent

/-- While a path stays registered, its descriptor stays the same. -/
theorem descriptor_of_trail {path : ContextPath} {hosts : List Host}
    (ht : Trail P h hosts h') (hall : ∀ x ∈ hosts, x.Occupied path) :
    h'.descriptors.get? path = h.descriptors.get? path := by
  induction ht with
  | here => rfl
  | @step h h₁ h₂ hosts hpart htrail ih =>
    have hrest : ∀ x ∈ hosts, x.Occupied path := fun x hx => hall x (List.mem_cons_of_mem _ hx)
    have hsame := descriptor_of_part hpart (hall h (by simp)) (hrest h₁ htrail.start_mem)
    exact (ih hrest).trans hsame

/-! ### The end of a redeployment -/

/-- The database holds this descriptor for the path. -/
def Persists (h : Host) (path : ContextPath) (d : Descriptor) : Prop :=
  ∃ rows, h.Stores rows ∧
    ∃ row ∈ rows, row.contextPath = path.text ∧ Descriptor.ofText row.descriptor = .ok d

theorem Mirrored.persists (hm : h.Mirrored) {path : ContextPath} {d : Descriptor}
    (hd : h.descriptors.get? path = some d) : h.Persists path d := by
  obtain ⟨rows, hs, hm⟩ := hm
  exact ⟨rows, hs, hm.row_of_descriptor hd⟩

/-- A part keeps the database and the descriptors in agreement. -/
theorem Mirrored.part (hm : h.Mirrored) (hp : Part P h h') : h'.Mirrored := by
  -- what is put into the table of contexts does not matter for either
  have hput (table : PathTable Context) : ({ h with contexts := table } : Host).Mirrored :=
    hm.of_eq rfl rfl
  cases hp with
  | tick => exact hm.tick
  | deploy d => exact hm.deploy d
  | undeploy path => exact hm.undeploy path
  | finishPrepare path id prep hid =>
    rcases finishPrepare_cases h path id prep with hsame | ⟨-, -, hstored⟩
    · rw [hsame]
      exact hm
    · rw [hstored]
      exact (hput _).write (write_recordStartup ..)
  | putBack task hid =>
    unfold putBack
    rcases storePrepared_cases h task.id task.preparation.context with ⟨e, he⟩ | ⟨_, -, -, hok⟩
    · rw [he]
      exact hm.write (write_recordStartup ..)
    · rw [hok]
      exact (hput _).write (write_recordStartup ..)
  | finishRedeploy path prep hissued hP =>
    rcases finishRedeploy_cases h path prep with hsame | ⟨-, hstored⟩
    · rw [hsame]
      exact hm
    · rw [hstored]
      exact ((hput _).write (.record ..)).write (write_recordStartup ..)
  | updateSettings f => exact hm.write (.updateSettings h f)
  | saveSettings => exact hm.write (.saveSettings h)

theorem Mirrored.trail (hm : h.Mirrored) {hosts : List Host} (ht : Trail P h hosts h') :
    h'.Mirrored := by
  induction ht with
  | here => exact hm
  | step hpart _ ih => exact ih (hm.part hpart)

/-- The end of a redeployment puts the new context in wherever something is registered. -/
theorem contexts_finishRedeploy (h : Host) (path : ContextPath) (prep : Preparation) :
    (h.finishRedeploy path prep).1.contexts =
      if h.contexts.contains path = true then h.contexts.insert path prep.context
      else h.contexts := by
  unfold finishRedeploy
  split
  · simp only [contexts_recordStartup, contexts_record]
  · rfl

/-- What a redeployment should do that ends on `h` after it went through these hosts. -/
structure RedeploysCurrent (hosts : List Host) (h : Host) (path : ContextPath)
    (prep : Preparation) : Prop where
  /-- A context that it puts in was built from the descriptor that is registered for the path, and
      that the database holds. -/
  current : (h.finishRedeploy path prep).1.contexts.get? path = some prep.context →
    ∃ d, h.descriptors.get? path = some d ∧ prep.context.IsBuiltFrom d ∧
      (h.Mirrored → h.Persists path d)
  /-- Where the path was undeployed meanwhile, what is there by now is left. -/
  newer : (∃ x ∈ hosts, ¬ x.Occupied path) →
    (h.finishRedeploy path prep).1.contexts.get? path = h.contexts.get? path

/-- A redeployment reads a descriptor and prepares a context for it, and parts of other operations
    come in between. It then does what it should if the path stayed registered all the time,
    or is free in the end. In no other case does it. A database that held the descriptors
    when the redeployment began still holds them when it ends. -/
theorem redeploys_current_iff {path : ContextPath} {d : Descriptor} {c : Context}
    (hd : h.descriptors.get? path = some d)
    (hc : Context.ofDescriptor h.supply.id h.supply.now d = .ok c) (m : Machine) :
    let prep := h.preparationOf m c
    h.redeploy m path = (h.tick.performAll prep.calls).finishRedeploy path prep ∧
      (∃ hosts, Trail (· ≠ c.id) h.tick hosts (h.tick.performAll prep.calls)) ∧
      (∀ h', Steps h.tick h' → ∃ hosts, Trail (· ≠ c.id) h.tick hosts h') ∧
      ∀ hosts h', Trail (· ≠ c.id) h.tick hosts h' → (h.Mirrored → h'.Mirrored) ∧
        (RedeploysCurrent hosts h' path prep ↔
          (∀ x ∈ hosts, x.Occupied path) ∨ ¬ h'.Occupied path) := by
  intro prep
  obtain ⟨-, hcid, -⟩ := Context.ofDescriptor_spec hc
  have hid : prep.context.id = c.id := Context.prepare_id ..
  have hread : c.id.bits < h.tick.supply.issued := by
    rw [hcid]
    exact Nat.lt_succ_self _
  refine ⟨?_, exists_trail (parts_performAll ..),
    fun h' hsteps => exists_trail (parts_ne_of_steps hread hsteps), ?_⟩
  · unfold redeploy
    rw [hd]
    simp only [hc]
    rfl
  · intro hosts h' htrail
    refine ⟨fun hm => hm.tick.trail htrail, ?_⟩
    constructor
    · intro hcurrent
      by_cases hall : ∀ x ∈ hosts, x.Occupied path
      · exact .inl hall
      · right
        rintro ⟨current, hthere⟩
        obtain ⟨x, hnot⟩ := Classical.not_forall.1 hall
        obtain ⟨hx, hgone⟩ := Classical.not_imp.1 hnot
        -- the new context would have to be there before it is put in
        have hleft := hcurrent.newer ⟨x, hx, hgone⟩
        have hin : h'.contexts.contains path = true := by
          unfold PathTable.contains
          rw [hthere]
          rfl
        rw [contexts_finishRedeploy, if_pos hin, PathTable.get?_insert, if_pos rfl] at hleft
        obtain ⟨hbefore, hafter⟩ := htrail.parts_of_mem x hx
        have hissued := Nat.lt_of_lt_of_le hread (issued_of_parts hbefore)
        have hcarries : h'.Carries path c.id := ⟨prep.context, hleft.symm, hid⟩
        obtain ⟨earlier, hearlier, -⟩ := carries_of_parts hissued hafter hcarries
        exact hgone ⟨earlier, hearlier⟩
    · rintro (hall | hfree)
      · have hkept : h'.descriptors.get? path = some d :=
          (descriptor_of_trail htrail hall).trans hd
        refine ⟨fun _ => ⟨d, hkept, ⟨_, _, _, _, c, hc, rfl⟩, fun hm => hm.persists hkept⟩, ?_⟩
        rintro ⟨x, hx, hgone⟩
        exact absurd (hall x hx) hgone
      · have hout : h'.contexts.get? path = none := by
          cases hget : h'.contexts.get? path with
          | none => rfl
          | some current => exact absurd ⟨current, hget⟩ hfree
        have hcontexts : (h'.finishRedeploy path prep).1.contexts = h'.contexts := by
          rw [contexts_finishRedeploy, if_neg]
          unfold PathTable.contains
          rw [hout]
          simp
        refine ⟨fun hput => ?_, fun _ => by rw [hcontexts]⟩
        rw [hcontexts, hout] at hput
        simp at hput

/-- Where nothing happens meanwhile, the redeployment does what it should. -/
theorem redeploys_current_iff_undisturbed :
    ∃ d c, occupiedHost.descriptors.get? Sample.pathA = some d ∧
      Context.ofDescriptor occupiedHost.supply.id occupiedHost.supply.now d = .ok c ∧
      RedeploysCurrent [occupiedHost.tick] occupiedHost.tick Sample.pathA
        (occupiedHost.preparationOf Sample.machine c) := by
  have hd : occupiedHost.descriptors.get? Sample.pathA = some (.ofBase "/A" "/srv/a") := by
    rfl
  obtain ⟨c, hc⟩ : ∃ c, Context.ofDescriptor occupiedHost.supply.id occupiedHost.supply.now
      (.ofBase "/A" "/srv/a") = .ok c := ⟨_, rfl⟩
  obtain ⟨-, -, -, hall⟩ := redeploys_current_iff hd hc Sample.machine
  refine ⟨_, c, hd, hc, (hall _ _ (.here _)).2.2 (.inl fun x hx => ?_)⟩
  obtain rfl := List.mem_singleton.1 hx
  exact ⟨_, rfl⟩

/-- An application whose processor takes it out and deploys another one in its place. -/
def restlessApplication : Descriptor :=
  { Descriptor.ofBase "/A" "/srv/a" with processors := ["restless"] }

/-- A host with this application. -/
def restlessHost : Host :=
  (freshHost.deploy restlessApplication).1

/-- The redeployment of this application puts it back, over the one that its processor has
    deployed. -/
theorem redeploy_not_current :
    restlessHost.Reachable ∧
      restlessHost.descriptors.get? Sample.pathA = some restlessApplication ∧
      ∃ c hosts, Context.ofDescriptor restlessHost.supply.id restlessHost.supply.now
          restlessApplication = .ok c ∧
        let prep := restlessHost.preparationOf Sample.machine c
        let h' := restlessHost.tick.performAll prep.calls
        restlessHost.redeploy Sample.machine Sample.pathA =
            h'.finishRedeploy Sample.pathA prep ∧
          Trail (· ≠ c.id) restlessHost.tick hosts h' ∧
          ¬ RedeploysCurrent hosts h' Sample.pathA prep := by
  have hreach : restlessHost.Reachable :=
    ⟨freshHost, .restore restore_freshHost, .single (.deploy _ _)⟩
  refine ⟨hreach, rfl, ?_⟩
  obtain ⟨c, hc⟩ : ∃ c, Context.ofDescriptor restlessHost.supply.id restlessHost.supply.now
      restlessApplication = .ok c := ⟨_, rfl⟩
  let prep := restlessHost.preparationOf Sample.machine c
  obtain ⟨hosts, htrail⟩ := exists_trail (parts_performAll (P := (· ≠ c.id)) restlessHost.tick
    prep.calls)
  refine ⟨c, hosts, hc, ?_, htrail, ?_⟩
  · unfold redeploy
    rw [show restlessHost.descriptors.get? Sample.pathA = some restlessApplication from rfl]
    simp only [hc]
  intro hcurrent
  have hcalls : prep.calls = [.undeploy Sample.pathA, .deploy (.ofBase "/A" "/srv/a")] := by
    obtain rfl := Except.ok.inj hc
    rfl
  rw [hcalls] at hcurrent
  let replaced := ((restlessHost.tick.undeploy Sample.pathA).1.deploy (.ofBase "/A" "/srv/a")).1
  have hin : replaced.contexts.contains Sample.pathA = true := by
    rfl
  have hput : (replaced.finishRedeploy Sample.pathA prep).1.contexts.get? Sample.pathA =
      some prep.context := by
    rw [contexts_finishRedeploy, if_pos hin, PathTable.get?_insert, if_pos rfl]
  obtain ⟨d, hd, hbuilt, -⟩ := hcurrent.current hput
  have hregistered : replaced.descriptors.get? Sample.pathA = some (.ofBase "/A" "/srv/a") := by
    rfl
  obtain rfl := Option.some.inj (hregistered.symm.trans hd)
  -- the application that was put back names a processor, and the newer one names none
  have hold : prep.context.IsBuiltFrom restlessApplication := ⟨_, _, _, _, c, hc, rfl⟩
  have hnames := hold.identifiers.symm.trans hbuilt.identifiers
  simp [restlessApplication, Descriptor.ofBase] at hnames

end Host

end Hosting
