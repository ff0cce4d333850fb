import Hosting.Proofs.Host.Turns

/-! # Restarts

    A host that is dropped and made again from its database has lost all preparations: every
    context is there as it was deployed. What is registered, and how deployments and
    undeployments are answered, is as if the host had gone on. Both depend on the
    descriptors alone, and the database holds these.

    - `ask`, `askAll`: what requests do to a table of descriptors, and how they are answered.
    - `ask_of_handles`: a calm host does just this, whatever else becomes of its contexts.
    - `restore_of_calm`: a restart succeeds and brings the same descriptors back.
    - `restarts_unseen`: restarts between requests cannot be told from their answers.
-/

namespace Hosting.Host

variable {h h' : Host}

/-! ### Requests to the descriptors -/

/-- What a request does to the registered descriptors, and its answer. -/
def ask (t : PathTable Descriptor) : Request → PathTable Descriptor × Answer
  | .deploy d =>
    match ContextPath.parse d.contextPath with
    | .error e => (t, some (.error (.host e)))
    | .ok path =>
      if t.contains path then (t, some (.error (.host (.duplicateContext path.text))))
      else (t.insert path d, some (.ok path))
  | .undeploy path =>
    if t.contains path then (t.erase path, some (.ok path))
    else (t, some (.error (.host (.noSuchContext path.text))))
  | _ => (t, none)

/-- What requests do one after the other. -/
def askAll : PathTable Descriptor → List Request → PathTable Descriptor × List Answer
  | t, [] => (t, [])
  | t, r :: rest =>
    let (t, answer) := ask t r
    let (t, answers) := askAll t rest
    (t, answer :: answers)

theorem contains_descriptors (hk : h.Keyed) (p : ContextPath) :
    h.descriptors.contains p = h.contexts.contains p :=
  (hk.same_paths p).symm

theorem ask_deploy (hcalm : h.Calm) (d : Descriptor) :
    ask h.descriptors (.deploy d) = ((h.deploy d).1.descriptors, some (h.deploy d).2) := by
  obtain ⟨rows, hs, -⟩ := hcalm.mirrored
  rcases hs.deploy_cases d with ⟨e, hparse, he⟩ | ⟨path, hparse, htaken, he⟩ |
    ⟨c, stored, hc, hfree, -, hput, hok⟩
  · simp only [ask, hparse, he]
    rfl
  · simp only [ask, hparse, he, contains_descriptors hcalm.keyed, htaken, if_true]
    rfl
  · have hparse := (Context.ofDescriptor_spec hc).1
    have hdescriptors : (h.deploy d).1.descriptors = h.descriptors.insert c.path d := by
      rw [hok, descriptors_record, hput.descriptors]
      rfl
    rw [hdescriptors, hok]
    simp only [ask, hparse, contains_descriptors hcalm.keyed, hfree, Bool.false_eq_true, if_false]

theorem ask_undeploy (hcalm : h.Calm) (path : ContextPath) :
    ask h.descriptors (.undeploy path) =
      ((h.undeploy path).1.descriptors, some ((h.undeploy path).2.map (·.path))) := by
  obtain ⟨rows, hs, -⟩ := hcalm.mirrored
  have hcontains : h.descriptors.contains path = (h.contexts.get? path).isSome :=
    contains_descriptors hcalm.keyed path
  rcases hs.undeploy_cases path with ⟨hnone, he⟩ | ⟨c, removed, hc, -, htaken, hok⟩
  · rw [hnone] at hcontains
    simp only [ask, hcontains, he]
    rfl
  · -- what is given back is the context of this path
    have hcpath : c.path = path := hcalm.keyed.context_path hc
    have hpath : c.markStopped.path = path := hcpath
    have hdescriptors : (h.undeploy path).1.descriptors = h.descriptors.erase path := by
      rw [hok, descriptors_record, htaken.descriptors]
      rfl
    rw [hc] at hcontains
    rw [hdescriptors, hok]
    simp only [ask, hcontains, Option.isSome_some, if_true, Except.map, hpath]

/-- What becomes of the descriptors of a calm host, and the answer, follow from the request. -/
theorem ask_of_handles (hcalm : h.Calm) {r : Request} {a : Answer} (hh : Handles h r a h') :
    ask h.descriptors r = (h'.descriptors, a) := by
  rcases hcalm.handles_cases hh with ⟨d, rfl, rfl, rfl⟩ | ⟨path, rfl, rfl, rfl⟩ |
    ⟨hdeploy, hundeploy, rfl, ht⟩
  · exact ask_deploy hcalm d
  · exact ask_undeploy hcalm path
  · rw [descriptors_turns ht]
    cases r with
    | deploy d => exact absurd rfl (hdeploy d)
    | undeploy path => exact absurd rfl (hundeploy path)
    | prepare path => rfl
    | startAll => rfl
    | redeploy path => rfl

theorem askAll_cons {t t₁ t₂ : PathTable Descriptor} {r : Request} {a : Answer}
    {requests : List Request} {answers : List Answer} (hr : ask t r = (t₁, a))
    (hrest : askAll t₁ requests = (t₂, answers)) :
    askAll t (r :: requests) = (t₂, a :: answers) := by
  unfold askAll
  simp only [hr, hrest]

theorem askAll_of_run (hcalm : h.Calm) {requests : List Request} {answers : List Answer}
    (hrun : Run h requests answers h') :
    askAll h.descriptors requests = (h'.descriptors, answers) := by
  induction hrun with
  | nil => rfl
  | cons hh _ ih => exact askAll_cons (ask_of_handles hcalm hh) (ih (hcalm.handles hh))

/-! ### Registering what is stored -/

/-- Every context is as its descriptor makes it. -/
def AsDeployed (h : Host) : Prop :=
  ∀ p c, h.contexts.get? p = some c →
    ∃ d, h.descriptors.get? p = some d ∧ Context.ofDescriptor c.id c.deployedAt d = .ok c

theorem AsDeployed.register (hd : h.AsDeployed) (d : Descriptor) :
    (h.register d).1.AsDeployed := by
  rcases register_cases h d with ⟨e, he⟩ | ⟨c, hc, -, hok⟩
  · rw [he]
    exact hd
  · rw [hok]
    intro p c' hc'
    simp only [insertDescriptor, contexts_insertContext, PathTable.get?_insert] at hc' ⊢
    split at hc'
    · next hp =>
      obtain rfl := Option.some.inj hc'
      obtain ⟨-, hid, htime, -⟩ := Context.ofDescriptor_spec hc
      refine ⟨d, by rw [if_pos hp], ?_⟩
      rw [hid, htime]
      exact hc
    · next hp =>
      obtain ⟨d', hd', hmade⟩ := hd p c' hc'
      exact ⟨d', by rw [if_neg hp]; exact hd', hmade⟩

theorem asDeployed_restore {db : Database} {registry : ProcessorRegistry} {supply : Supply}
    (hr : restore db registry supply = .ok h) : h.AsDeployed := by
  refine restore_induction hr (fun settings p c hc => ?_) fun h d hd => hd.register d
  simp [ofSettings] at hc

@[simp] theorem database_register (h : Host) (d : Descriptor) :
    (h.register d).1.database = h.database := by
  rcases register_cases h d with ⟨e, he⟩ | ⟨c, -, -, hok⟩
  · rw [he]
    rfl
  · rw [hok]
    rfl

theorem database_restore {db : Database} {registry : ProcessorRegistry} {supply : Supply}
    (hr : restore db registry supply = .ok h) : h.database = some db :=
  restore_induction hr (fun _ => rfl) fun h d hdb => (database_register h d).trans hdb

/-- Every descriptor of the host is in `t`, under the same path. -/
def Within (h : Host) (t : PathTable Descriptor) : Prop :=
  ∀ p d, h.descriptors.get? p = some d → t.get? p = some d

/-- A descriptor that belongs to `t` is there after it was registered, and what was there stays. -/
theorem Within.register {t : PathTable Descriptor} (hw : h.Within t) (hk : h.Keyed)
    {p : ContextPath} {d : Descriptor} (hparse : ContextPath.parse d.contextPath = .ok p)
    (ht : t.get? p = some d) :
    (h.register d).1.Within t ∧ (h.register d).1.descriptors.get? p = some d ∧
      ∀ q e, h.descriptors.get? q = some e → (h.register d).1.descriptors.get? q = some e := by
  rw [Within, descriptors_register h hparse]
  cases htaken : h.contexts.contains p with
  | true =>
    -- what is registered there already can only be the same descriptor
    rw [if_pos rfl]
    have hin : (h.descriptors.get? p).isSome = true := by
      rw [← hk.same_paths]
      exact htaken
    obtain ⟨e, he⟩ := Option.isSome_iff_exists.1 hin
    have hsame := hw p e he
    rw [ht] at hsame
    obtain rfl := Option.some.inj hsame
    exact ⟨hw, he, fun q e hq => hq⟩
  | false =>
    rw [if_neg (by simp)]
    have hnone : h.descriptors.get? p = none := by
      have hfree : (h.contexts.get? p).isSome = false := htaken
      rw [hk.same_paths] at hfree
      simpa using hfree
    refine ⟨fun q e hq => ?_, by simp, fun q e hq => ?_⟩
    · rw [PathTable.get?_insert] at hq
      split at hq
      · next heq =>
        obtain rfl := Option.some.inj hq
        rw [heq]
        exact ht
      · exact hw q e hq
    · rw [PathTable.get?_insert, if_neg]
      · exact hq
      · rintro rfl
        rw [hnone] at hq
        simp at hq

/-- Once all descriptors of `t` were registered, and no others, the host has just these. -/
theorem descriptors_registerAll {t : PathTable Descriptor} {descriptors : List Descriptor}
    (hin : ∀ d ∈ descriptors, ∃ p, ContextPath.parse d.contextPath = .ok p ∧ t.get? p = some d)
    (hall : ∀ p d, t.get? p = some d → d ∈ descriptors ∨ h.descriptors.get? p = some d)
    (hparse : ∀ p d, t.get? p = some d → ContextPath.parse d.contextPath = .ok p)
    (hw : h.Within t) (hk : h.Keyed) :
    (descriptors.foldl (fun h d => (h.register d).1) h).descriptors = t := by
  -- what is registered belongs to t, and what of t is not registered is still to come
  induction descriptors generalizing h with
  | nil =>
    refine PathTable.ext_get? fun p => ?_
    show h.descriptors.get? p = t.get? p
    cases ht : t.get? p with
    | none =>
      cases hd : h.descriptors.get? p with
      | none => rfl
      | some d => exact absurd (hw p d hd) (by rw [ht]; simp)
    | some d => exact (hall p d ht).resolve_left (by simp)
  | cons d descriptors ih =>
    obtain ⟨p, hp, htp⟩ := hin d (by simp)
    obtain ⟨hw', hhere, hkept⟩ := hw.register hk hp htp
    refine ih (fun e he => hin e (by simp [he])) (fun q e hq => ?_) hw' (hk.register d)
    rcases hall q e hq with hmem | hold
    · rcases List.mem_cons.1 hmem with rfl | hmem
      · -- this one was registered just now
        have hqp := hparse q e hq
        rw [hp] at hqp
        obtain rfl := Except.ok.inj hqp
        exact .inr hhere
      · exact .inl hmem
    · exact .inr (hkept q e hold)

/-! ### Restarts -/

/-- The descriptors that are loaded are those that are mirrored. -/
theorem mem_loaded_iff {rows : List DeploymentRow} (hm : h.Mirrors rows) {d : Descriptor} :
    d ∈ (rows.mergeSort Tables.earlier).filterMap
        (fun row => (Descriptor.ofText row.descriptor).toOption) ↔
      ∃ p, h.descriptors.get? p = some d := by
  rw [List.mem_filterMap]
  constructor
  · rintro ⟨row, hrow, hread⟩
    obtain ⟨p, d', -, hd', hok⟩ := hm.of_row (List.mem_mergeSort.1 hrow)
    rw [hok] at hread
    obtain rfl := Option.some.inj hread
    exact ⟨p, hd'⟩
  · rintro ⟨p, hd⟩
    obtain ⟨row, hrow, -, hread⟩ := hm.row_of_descriptor hd
    exact ⟨row, List.mem_mergeSort.2 hrow, by rw [hread]; rfl⟩

/-- A database that holds the descriptors of a host, and settings that read, makes a host with the
    same descriptors and with new contexts. -/
theorem restore_of_mirrored (hk : h.Keyed) (hm : h.Mirrored) {db : Database}
    (hdb : h.database = some db) {settings : Option Settings}
    (hsettings : db.tables.loadSettings = .ok settings) (registry : ProcessorRegistry)
    (supply : Supply) :
    ∃ h', restore db registry supply = .ok h' ∧ h'.database = some db ∧
      h'.descriptors = h.descriptors ∧ h'.AsDeployed := by
  obtain ⟨rows, hs, hm⟩ := hm
  have htables : db.tables = ⟨some h.storedSettings, some rows, some h.events⟩ := by
    rw [← hs.tables_eq]
    unfold tables
    rw [hdb]
  let loaded := (rows.mergeSort Tables.earlier).filterMap
    fun row => (Descriptor.ofText row.descriptor).toOption
  have hdeployments : db.tables.loadDeployments = .ok loaded := by
    rw [htables]
    rfl
  let blank : Host :=
    { ofSettings (settings.getD .default) registry supply with database := some db }
  have hrestored : restore db registry supply =
      .ok (loaded.foldl (fun h d => (h.register d).1) blank) := by
    unfold restore
    rw [hsettings, hdeployments]
  have hblank : blank.Keyed :=
    (keyed_ofSettings (settings.getD .default) registry supply).of_tables_eq rfl rfl
  refine ⟨_, hrestored, database_restore hrestored, ?_, asDeployed_restore hrestored⟩
  -- the paths differ, so it does not matter in which order they are registered
  refine descriptors_registerAll (fun d hd => ?_) (fun p d hd => ?_) ?_ (fun p d hd => ?_) hblank
  · obtain ⟨p, hp⟩ := (mem_loaded_iff hm).1 hd
    exact ⟨p, hk.descriptor_path hp, hp⟩
  · exact .inl ((mem_loaded_iff hm).2 ⟨p, hd⟩)
  · exact fun p d hd => hk.descriptor_path hd
  · simp [blank, ofSettings] at hd

/-- The database of a calm host makes a host with the same descriptors and with new contexts. -/
theorem restore_of_calm (hcalm : h.Calm) {db : Database} (hdb : h.database = some db)
    (registry : ProcessorRegistry) (supply : Supply) :
    ∃ h', restore db registry supply = .ok h' ∧ h'.database = some db ∧
      h'.descriptors = h.descriptors ∧ h'.AsDeployed := by
  obtain ⟨rows, hs, hm⟩ := hcalm.mirrored
  have hsettings : db.tables.loadSettings = .ok none := by
    have htables : db.tables = ⟨some none, some rows, some h.events⟩ := by
      have ht := hs.tables_eq
      rw [hcalm.unset] at ht
      rw [← ht]
      unfold tables
      rw [hdb]
    rw [htables]
    rfl
  exact restore_of_mirrored hcalm.keyed ⟨rows, hs, hm⟩ hdb hsettings registry supply

theorem Calm.restart (hcalm : h.Calm) {db : Database} (hdb : h.database = some db)
    {registry : ProcessorRegistry} {supply : Supply} (hr : restore db registry supply = .ok h')
    (hquiet : registry.IsQuiet) : h'.Calm ∧ h'.descriptors = h.descriptors := by
  obtain ⟨h'', hr'', hdb'', hdescriptors, -⟩ := restore_of_calm hcalm hdb registry supply
  rw [hr] at hr''
  obtain rfl := Except.ok.inj hr''
  have hsame : h'.database = h.database := hdb''.trans hdb.symm
  refine ⟨⟨keyed_restore hr, hcalm.mirrored.of_eq hsame hdescriptors, .restore hr hquiet, ?_⟩,
    hdescriptors⟩
  have hunset := hcalm.unset
  unfold storedSettings at hunset ⊢
  rw [tables_of_database_eq hsame]
  exact hunset

/-- Requests one after the other, with restarts in between. -/
inductive RestartingRun : Host → List Request → List Answer → Host → Prop where
  | nil (h : Host) : RestartingRun h [] [] h
  | cons {h h₁ h₂ : Host} {r : Request} {a : Answer} {requests : List Request}
      {answers : List Answer} :
      Handles h r a h₁ → RestartingRun h₁ requests answers h₂ →
      RestartingRun h (r :: requests) (a :: answers) h₂
  /-- The host is dropped, and another one is made from its database. -/
  | restart {h h₁ h₂ : Host} {db : Database} {registry : ProcessorRegistry} {supply : Supply}
      {requests : List Request} {answers : List Answer} :
      h.database = some db → restore db registry supply = .ok h₁ → registry.IsQuiet →
      RestartingRun h₁ requests answers h₂ → RestartingRun h requests answers h₂

theorem askAll_of_restartingRun (hcalm : h.Calm) {requests : List Request}
    {answers : List Answer} (hrun : RestartingRun h requests answers h') :
    askAll h.descriptors requests = (h'.descriptors, answers) ∧ h'.Calm := by
  induction hrun with
  | nil => exact ⟨rfl, hcalm⟩
  | cons hh _ ih =>
    obtain ⟨hrest, hcalm'⟩ := ih (hcalm.handles hh)
    exact ⟨askAll_cons (ask_of_handles hcalm hh) hrest, hcalm'⟩
  | restart hdb hr hquiet _ ih =>
    obtain ⟨hcalm₁, hdescriptors⟩ := hcalm.restart hdb hr hquiet
    rw [← hdescriptors]
    exact ih hcalm₁

/-- A run on a host that was opened from a fresh database is answered as it is with any restarts
    in between, and both come to the same paths and descriptors. The database that it leaves
    can be opened again: then the same paths are there with the same descriptors, and every
    context is as its descriptor makes it. -/
theorem restarts_unseen {blank db : Database} {registry : ProcessorRegistry} {supply : Supply}
    {plain restarted : Host} {requests : List Request} {answers answers' : List Answer}
    (hblank : blank.tables = .empty) (hmade : blank.makeTables = .ok db)
    (hopened : restore db registry supply = .ok h) (hquiet : registry.IsQuiet)
    (hplain : Run h requests answers plain)
    (hrestarting : RestartingRun h requests answers' restarted) :
    answers' = answers ∧ restarted.descriptors = plain.descriptors ∧
      (∀ p, restarted.contexts.contains p = plain.contexts.contains p) ∧
      ∃ db', restarted.database = some db' ∧ ∀ registry' supply', ∃ fresh,
        restore db' registry' supply' = .ok fresh ∧
        fresh.descriptors = restarted.descriptors ∧
        (∀ p, fresh.contexts.contains p = restarted.contexts.contains p) ∧
        ∀ p c, fresh.contexts.get? p = some c → c.state = .deployed ∧
          ∃ d, fresh.descriptors.get? p = some d ∧
            Context.ofDescriptor c.id c.deployedAt d = .ok c := by
  have hcalm : h.Calm := calm_of_restore hblank hmade hopened hquiet
  have hplainCalm : plain.Calm := hcalm.run hplain
  have hasked := askAll_of_run hcalm hplain
  obtain ⟨hasked', hrestartedCalm⟩ := askAll_of_restartingRun hcalm hrestarting
  rw [hasked] at hasked'
  obtain ⟨hdescriptors, hanswers⟩ := Prod.mk.inj hasked'
  refine ⟨hanswers.symm, hdescriptors.symm, fun p => ?_, ?_⟩
  · rw [← contains_descriptors hrestartedCalm.keyed, ← contains_descriptors hplainCalm.keyed,
      hdescriptors]
  obtain ⟨rows, ⟨db', settings, events, hdb', -, -⟩, -⟩ := hrestartedCalm.mirrored
  refine ⟨db', hdb', fun registry' supply' => ?_⟩
  obtain ⟨fresh, hfresh, -, hsame, hdeployed⟩ :=
    restore_of_calm hrestartedCalm hdb' registry' supply'
  refine ⟨fresh, hfresh, hsame, fun p => ?_, fun p c hc => ?_⟩
  · rw [← contains_descriptors (keyed_restore hfresh),
      ← contains_descriptors hrestartedCalm.keyed, hsame]
  · obtain ⟨d, hd, hmade'⟩ := hdeployed p c hc
    obtain ⟨-, -, -, hstate, -⟩ := Context.ofDescriptor_spec hmade'
    exact ⟨hstate, d, hd, hmade'⟩

/-- An application is deployed at `/A`, all are started, and another one is deployed there. -/
def deployTwice : List Request :=
  [.deploy (.ofBase "/A" "/srv/a"), .startAll, .deploy (.ofBase "/A" "/srv/b")]

/-- A restart loses the preparations, and still the second deployment is refused. -/
theorem restarts_unseen_duplicate :
    restore freshDatabase .default ⟨0, 0⟩ = .ok defaultHost ∧
      ∃ plain restarted answers answers', Run defaultHost deployTwice answers plain ∧
        RestartingRun defaultHost deployTwice answers' restarted ∧
        answers = [some (.ok Sample.pathA), none,
          some (.error (.host (.duplicateContext "/A")))] ∧
        answers' = answers ∧ restarted.descriptors = plain.descriptors := by
  have hmade : Database.inMemory.makeTables = .ok freshDatabase := by
    rfl
  have hquiet := ProcessorRegistry.isQuiet_default
  have hplain : Run defaultHost deployTwice _ _ :=
    .cons (.deploy _ _) (.cons (handles_startAll _ Sample.machine)
      (.cons (.deploy _ _) (.nil _)))
  -- after the start, the host is made again from its database
  let started := ((defaultHost.deploy (.ofBase "/A" "/srv/a")).1.startAll Sample.machine).1
  have hcalm : started.Calm := by
    have hdeployed := calm_defaultHost.handles (.deploy _ (.ofBase "/A" "/srv/a"))
    exact hdeployed.handles (handles_startAll _ Sample.machine)
  obtain ⟨rows, ⟨db, settings, events, hdb, -, -⟩, -⟩ := hcalm.mirrored
  obtain ⟨again, hagain, -⟩ := restore_of_calm hcalm hdb .default ⟨100, 0⟩
  have hrestarting : RestartingRun defaultHost deployTwice _ _ :=
    .cons (.deploy _ _) (.cons (handles_startAll _ Sample.machine)
      (.restart hdb hagain hquiet (.cons (.deploy _ _) (.nil _))))
  have hexpected : (askAll defaultHost.descriptors deployTwice).2 = [some (.ok Sample.pathA),
      none, some (.error (.host (.duplicateContext "/A")))] := by
    rfl
  rw [askAll_of_run calm_defaultHost hplain] at hexpected
  obtain ⟨hanswers, hdescriptors, -⟩ :=
    restarts_unseen rfl hmade restore_defaultHost hquiet hplain hrestarting
  exact ⟨restore_defaultHost, _, _, _, _, hplain, hrestarting, hexpected, hanswers, hdescriptors⟩

end Hosting.Host
