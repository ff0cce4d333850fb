import Hosting.Proofs.Host.Preparations
import Hosting.Proofs.Host.Restarts
import Mathlib.Data.List.Nodup

/-! # Redeploying, and the long way round

    A redeployment builds a new context from the stored descriptor and puts it in the place of
    the old one. Undeploying the path, deploying the stored descriptor and preparing the path
    takes three operations for the same. They take the path out of every table and put it
    back, and compare ids before they store what was prepared. As long as no processor calls
    the host and the database does not fail, both ways come to the same, and neither looks
    at what the old context had become.

    - `Context.anonymous`: a context without its id and its times.
    - `Grown`: a host that operations and restarts lead to, with its own database or with none.
    - `undeploy_registered`, `deploy_unregistered`: the two operations where they succeed.
    - `Replaces`: one context was replaced, and everything else is as it was.
    - `redeploy_as_longWay`: what both ways come to.
-/

namespace Hosting

/-- What was taken out comes back. -/
theorem PathTable.insert_erase {α : Type} {t : PathTable α} {p : ContextPath} {v : α}
    (h : t.get? p = some v) : (t.erase p).insert p v = t := by
  apply PathTable.ext_get?
  intro q
  rw [PathTable.get?_insert, PathTable.get?_erase]
  by_cases hq : q = p
  · rw [if_pos hq, hq, h]
  · rw [if_neg hq, if_neg hq]

/-! ### Ids and times -/

namespace Context

/-- The same context as another deployment at another time. -/
def redated (c : Context) (id : DeploymentId) (made : Instant) : Context :=
  { c with id := id, deployedAt := made }

/-- The context without its id and its times. -/
def anonymous (c : Context) : Context :=
  c.undated.redated ⟨0⟩ ⟨0, 0⟩

theorem ofDescriptor_redated (id : DeploymentId) (made : Instant) (d : Descriptor) :
    ofDescriptor id made d = (ofDescriptor ⟨0⟩ ⟨0, 0⟩ d).map (·.redated id made) := by
  unfold ofDescriptor
  cases ContextPath.parse d.contextPath with
  | error e => rfl
  | ok path => rfl

/-- A preparation takes no notice of the id and of the time of the deployment. -/
theorem prepare_redated (c : Context) (id : DeploymentId) (made : Instant) (env : Environment)
    (now : Instant) :
    (c.redated id made).prepare env now =
      ⟨(c.prepare env now).context.redated id made, (c.prepare env now).calls,
        (c.prepare env now).outcome⟩ := by
  have hbase : (c.redated id made).establish env = c.establish env := rfl
  have hat (base : BaseResource) : (c.redated id made).prepareAt env now base =
      ⟨(c.prepareAt env now base).context.redated id made, (c.prepareAt env now base).calls,
        (c.prepareAt env now base).outcome⟩ := by
    -- neither the view nor the list nor the fresh setup has the id or the time in it
    have hrun : Processor.run ((c.redated id made).view env)
        ((c.redated id made).chooseProcessors env).processors
        ((c.redated id made).freshSetup env base) =
          Processor.run (c.view env) (c.chooseProcessors env).processors (c.freshSetup env base) :=
      rfl
    unfold prepareAt
    simp only
    rw [hrun]
    split <;> rfl
  have hstate : (c.redated id made).state = c.state := rfl
  unfold prepare
  rw [hstate, hbase]
  cases c.state with
  | starting => rfl
  | started => rfl
  | stopped => rfl
  | deployed =>
    cases c.establish env with
    | error e => rfl
    | ok base => exact hat base
  | failed reason =>
    cases c.establish env with
    | error e => rfl
    | ok base => exact hat base

/-- Contexts for one descriptor are prepared alike, whenever they were made and are prepared. -/
theorem prepare_ofDescriptor {id : DeploymentId} {made : Instant} {d : Descriptor}
    {c new : Context} (hc : ofDescriptor id made d = .ok c)
    (hnew : ofDescriptor ⟨0⟩ ⟨0, 0⟩ d = .ok new) (env : Environment) (now : Instant) :
    (c.prepare env now).outcome = (new.prepare env ⟨0, 0⟩).outcome ∧
      (c.prepare env now).calls = (new.prepare env ⟨0, 0⟩).calls ∧
      (c.prepare env now).context.anonymous = (new.prepare env ⟨0, 0⟩).context.anonymous := by
  rw [ofDescriptor_redated, hnew] at hc
  obtain rfl := Except.ok.inj hc
  obtain ⟨houtcome, hcalls, hcopy⟩ := prepare_anytime new env ⟨0, 0⟩ now
  rw [prepare_redated]
  refine ⟨houtcome, hcalls, ?_⟩
  show ((new.prepare env now).context.undated).redated ⟨0⟩ ⟨0, 0⟩ = _
  rw [hcopy]
  rfl

end Context

namespace Host

variable {h h' : Host} {p : ContextPath} {c : Context} {d : Descriptor} {m : Machine}

/-! ### Hosts with their own database -/

/-- A host that operations lead to. It began without a database or with a fresh one, and it may
    have been dropped and made again from its database on the way. -/
inductive Grown : Host → Prop where
  | ofSettings (settings : Settings) (registry : ProcessorRegistry) (supply : Supply) :
      Grown (ofSettings settings registry supply)
  | fresh {blank db : Database} {registry : ProcessorRegistry} {supply : Supply} {h : Host} :
      blank.tables = .empty → blank.makeTables = .ok db → restore db registry supply = .ok h →
      Grown h
  | step {h h' : Host} : Grown h → Step h h' → Grown h'
  | restart {h h' : Host} {db : Database} {registry : ProcessorRegistry} {supply : Supply} :
      Grown h → h.database = some db → restore db registry supply = .ok h' → Grown h'

theorem record_of_none (hnone : h.database = none) (path : ContextPath) (event : String)
    (details : Option String) : h.record path event details = h := by
  unfold record
  rw [hnone]

theorem onDatabase_of_none (hnone : h.database = none) (f : Tables → Except Failure Tables) :
    h.onDatabase f = (h, .ok ()) := by
  unfold onDatabase
  rw [hnone]

theorem storeDeployment_of_none (hnone : h.database = none) (path : ContextPath) (d : Descriptor) :
    h.storeDeployment path d = (h, .ok ()) := by
  unfold storeDeployment
  split
  · rfl
  · exact onDatabase_of_none hnone _

/-- A host without a database does not get one. -/
theorem database_of_write (hnone : h.database = none) (hw : Write h h') : h'.database = none := by
  cases hw with
  | deploy d =>
    have hregistered : (h.register d).1.database = none := (database_register h d).trans hnone
    have hstored (path : ContextPath) :
        ((h.register d).1.storeDeployment path d).1.database = none := by
      rw [storeDeployment_of_none hregistered]
      exact hregistered
    rcases deploy_parts h d with heq | ⟨path, heq | heq⟩
    · rw [heq]
      exact hregistered
    · rw [heq]
      exact hstored path
    · rw [heq, record_of_none (hstored path)]
      exact hstored path
  | undeploy path =>
    let taken := (h.removeContext path).removeDescriptor path
    have htaken : taken.database = none := hnone
    rcases undeploy_parts h path with heq | ⟨f, heq | heq⟩
    · rw [heq]
      exact hnone
    · rw [heq, onDatabase_of_none htaken]
      exact htaken
    · rw [heq, onDatabase_of_none htaken, record_of_none htaken]
      exact htaken
  | tick => exact hnone
  | replace c _ _ => exact hnone
  | record path event details =>
    rw [record_of_none hnone]
    exact hnone
  | updateSettings f => exact hnone
  | saveSettings =>
    unfold saveSettings
    rw [hnone]
    exact hnone

theorem database_of_writes (hnone : h.database = none) (hw : Writes h h') :
    h'.database = none := by
  induction hw with
  | refl => exact hnone
  | tail _ hwrite ih => exact database_of_write ih hwrite

/-- The tables of such a host agree, and so does the database, if there is one. -/
theorem Grown.agrees (hg : h.Grown) : h.Keyed ∧ (h.database = none ∨ h.Mirrored) := by
  induction hg with
  | ofSettings settings registry supply =>
    exact ⟨keyed_ofSettings settings registry supply, .inl rfl⟩
  | fresh hblank hmade hopened =>
    exact ⟨keyed_restore hopened, .inr (mirrored_of_restore hblank hmade hopened)⟩
  | step _ hstep ih =>
    obtain ⟨hk, hd⟩ := ih
    have hwrites := writes_of_step hk hstep
    exact ⟨hk.writes hwrites, hd.imp (database_of_writes · hwrites) (·.writes hwrites)⟩
  | @restart h h' db registry supply _ hdb hopened ih =>
    obtain ⟨hk, hnone | hm⟩ := ih
    · rw [hnone] at hdb
      cases hdb
    · refine ⟨keyed_restore hopened, .inr ?_⟩
      -- whatever settings are stored, the new host has the descriptors that the rows hold
      cases hsettings : db.tables.loadSettings with
      | error e =>
        unfold restore at hopened
        rw [hsettings] at hopened
        cases hopened
      | ok settings =>
        obtain ⟨again, hagain, hdatabase, hdescriptors, -⟩ :=
          restore_of_mirrored hk hm hdb hsettings registry supply
        rw [hopened] at hagain
        obtain rfl := Except.ok.inj hagain
        exact hm.of_eq (hdatabase.trans hdb.symm) hdescriptors

/-! ### Operations that succeed -/

/-- There is no database, or one that does not fail. -/
def NeverFails (h : Host) : Prop :=
  h.database = none ∨ ∃ rows, h.Stores rows

theorem Mirrored.neverFails (hm : h.Mirrored) : h.NeverFails := by
  obtain ⟨rows, hs, -⟩ := hm
  exact .inr ⟨rows, hs⟩

theorem Stores.database_ne_none {rows : List DeploymentRow} (hs : h.Stores rows) :
    h.database ≠ none := by
  obtain ⟨db, _, _, hdb, -, -⟩ := hs
  rw [hdb]
  simp

@[simp] theorem settings_storeDeployment (h : Host) (path : ContextPath) (d : Descriptor) :
    (h.storeDeployment path d).1.settings = h.settings := by
  unfold storeDeployment
  split <;> simp

@[simp] theorem settings_register (h : Host) (d : Descriptor) :
    (h.register d).1.settings = h.settings := by
  rcases register_cases h d with ⟨e, he⟩ | ⟨c, -, -, hok⟩
  · rw [he]
    rfl
  · rw [hok]
    rfl

@[simp] theorem settings_deploy (h : Host) (d : Descriptor) :
    (h.deploy d).1.settings = h.settings := by
  rcases deploy_parts h d with hr | ⟨path, hs | hs⟩
  · rw [hr, settings_register]
  · rw [hs, settings_storeDeployment, settings_register]
  · rw [hs, settings_record, settings_storeDeployment, settings_register]

/-- Deployments and undeployments leave what the host lends to preparations. -/
theorem environment_deploy (h : Host) (d : Descriptor) (m : Machine) :
    (h.deploy d).1.environment m = h.environment m := by
  unfold environment
  rw [settings_deploy, registry_deploy]

theorem environment_undeploy (h : Host) (path : ContextPath) (m : Machine) :
    (h.undeploy path).1.environment m = h.environment m := by
  unfold environment
  rw [settings_undeploy, registry_undeploy]

/-- What is registered is undeployed, and goes from every table. -/
theorem undeploy_registered (hn : h.NeverFails) (hc : h.contexts.get? p = some c) :
    ∃ h', h.undeploy p = (h', .ok c.markStopped) ∧ h'.contexts = h.contexts.erase p ∧
      h'.descriptors = h.descriptors.erase p ∧ (h.database = none → h'.database = none) ∧
      ∀ rows, h.Stores rows → h'.Stores (rowsWithout rows p) := by
  rcases hn with hnone | ⟨rows, hs⟩
  · let taken := (h.removeContext p).removeDescriptor p
    have htaken : taken.database = none := hnone
    refine ⟨taken, ?_, rfl, rfl, fun _ => htaken, fun _ hs => absurd hnone hs.database_ne_none⟩
    unfold undeploy
    rw [hc]
    simp only [onDatabase_of_none htaken, record_of_none htaken, taken]
  · rcases hs.undeploy_cases p with ⟨hfree, -⟩ | ⟨c', removed, hc', hstores, hput, hok⟩
    · rw [hc] at hfree
      cases hfree
    · rw [hc] at hc'
      obtain rfl := Option.some.inj hc'
      refine ⟨removed.record p "undeployed" none, hok, ?_, ?_, ?_, ?_⟩
      · rw [contexts_record, hput.contexts]
        rfl
      · rw [descriptors_record, hput.descriptors]
        rfl
      · exact fun hnone => absurd hnone hs.database_ne_none
      · intro rows' hs'
        rw [hs'.unique hs]
        exact hstores.record ..

/-- What makes a context for a free path is deployed, and comes into every table. -/
theorem deploy_unregistered (hn : h.NeverFails)
    (hparse : ContextPath.parse d.contextPath = .ok p) (hfree : h.contexts.get? p = none) :
    ∃ h' made, Context.ofDescriptor h.supply.id h.supply.now d = .ok made ∧ made.path = p ∧
      h.deploy d = (h', .ok p) ∧ h'.contexts = h.contexts.insert p made ∧
      h'.descriptors = h.descriptors.insert p d ∧ (h.database = none → h'.database = none) ∧
      ∀ rows, h.Stores rows → ∃ row : DeploymentRow, row.contextPath = p.text ∧
        row.descriptor = d.toText ∧ h'.Stores (rowsWithout rows p ++ [row]) := by
  rcases hn with hnone | ⟨rows, hs⟩
  · obtain ⟨made, hmade, rfl, hregister⟩ := register_of_free hparse hfree
    let registered := (h.tick.insertContext made).insertDescriptor made.path d
    have hregistered : registered.database = none := hnone
    have hregister' : h.register d = (registered, .ok made.path) := hregister
    refine ⟨registered, made, hmade, rfl, ?_, rfl, rfl, fun _ => hregistered,
      fun _ hs => absurd hnone hs.database_ne_none⟩
    unfold deploy
    simp only [hregister', storeDeployment_of_none hregistered, record_of_none hregistered]
  · rcases hs.deploy_cases d with ⟨e, he, -⟩ | ⟨path, hp, htaken, -⟩ |
      ⟨made, stored, hmade, -, hstores, hput, hok⟩
    · rw [hparse] at he
      cases he
    · obtain rfl := Except.ok.inj (hparse.symm.trans hp)
      simp [PathTable.contains, hfree] at htaken
    · obtain rfl := Except.ok.inj (hparse.symm.trans (Context.ofDescriptor_spec hmade).1)
      refine ⟨stored.record made.path "deployed" none, made, hmade, rfl, hok, ?_, ?_, ?_, ?_⟩
      · rw [contexts_record, hput.contexts]
        rfl
      · rw [descriptors_record, hput.descriptors]
        rfl
      · exact fun hnone => absurd hnone hs.database_ne_none
      · intro rows' hs'
        rw [hs'.unique hs]
        exact ⟨⟨made.path.text, made.id.text, d.toText, made.deployedAt.text⟩, rfl, rfl,
          hstores.record ..⟩

/-- A registered path is redeployed, and how the preparation went is the answer. -/
theorem redeploy_of_registered (hd : h.descriptors.get? c.path = some d)
    (hmade : Context.ofDescriptor h.supply.id h.supply.now d = .ok c)
    (hin : h.contexts.contains c.path = true) (hcalls : (h.preparationOf m c).calls = []) :
    h.redeploy m c.path = (h.tick.renew (h.preparationOf m c),
      Failure.withDoing ("Failed to redeploy context " ++ c.path.text)
        (h.preparationOf m c).outcome) := by
  have hpath : (h.preparationOf m c).context.path = c.path := Context.prepare_path ..
  have hredeploy : h.redeploy m c.path = h.tick.finishRedeploy c.path (h.preparationOf m c) := by
    unfold redeploy
    rw [hd]
    simp only [hmade, hcalls]
    rfl
  have hin' : h.tick.contexts.contains c.path = true := hin
  rw [hredeploy]
  unfold finishRedeploy
  rw [if_pos hin']
  unfold renew
  rw [hpath]
  unfold insertContext
  rw [hpath]

/-! ### What the database holds -/

/-- The stored descriptors as they read, each under its key. -/
def persisted (h : Host) : List (String × Except Json.Fault Descriptor) :=
  (h.tables.deployments.getD []).map fun row => (row.contextPath, Descriptor.ofText row.descriptor)

theorem persisted_of_database_eq (heq : h'.database = h.database) :
    h'.persisted = h.persisted := by
  unfold persisted
  rw [tables_of_database_eq heq]

/-- An event is not a deployment. -/
@[simp] theorem persisted_record (h : Host) (path : ContextPath) (event : String)
    (details : Option String) : (h.record path event details).persisted = h.persisted := by
  rcases database_record h path event details with ⟨-, hsame⟩ | ⟨db, events, hdb, -, -, -, hwritten⟩
  · exact persisted_of_database_eq hsame
  · unfold persisted tables
    rw [hwritten, hdb]

theorem persisted_settle (h : Host) (prep : Preparation) :
    (h.settle prep).persisted = h.persisted := by
  unfold settle
  rw [recordStartup_eq, persisted_record]
  exact persisted_of_database_eq rfl

theorem persisted_renew (h : Host) (prep : Preparation) :
    (h.renew prep).persisted = h.persisted := by
  unfold renew
  rw [recordStartup_eq, persisted_record, persisted_record]
  exact persisted_of_database_eq rfl

theorem Stores.persisted_eq {rows : List DeploymentRow} (hs : h.Stores rows) :
    h.persisted = rows.map fun row => (row.contextPath, Descriptor.ofText row.descriptor) := by
  unfold persisted
  rw [hs.tables_eq]
  rfl

theorem persisted_of_none (hnone : h.database = none) : h.persisted = [] := by
  unfold persisted tables
  rw [hnone]
  rfl

theorem rowsWithout_rowsWithout (rows : List DeploymentRow) (path : ContextPath) :
    rowsWithout (rowsWithout rows path) path = rowsWithout rows path := by
  unfold rowsWithout
  rw [List.filter_filter]
  simp only [Bool.and_self]

/-- The rows are those of the other paths, and the one of this path. -/
theorem perm_rowsWithout {rows : List DeploymentRow} {row : DeploymentRow}
    (hnodup : (rows.map (·.contextPath)).Nodup) (hrow : row ∈ rows)
    (hkey : row.contextPath = p.text) : (rowsWithout rows p ++ [row]).Perm rows := by
  have hnodup' : (rowsWithout rows p ++ [row]).Nodup :=
    .of_map (·.contextPath) (nodup_rowsWithout_append hnodup hkey)
  refine (List.perm_ext_iff_of_nodup hnodup' (.of_map _ hnodup)).2 fun other => ?_
  rw [List.mem_append, mem_rowsWithout, List.mem_singleton]
  constructor
  · rintro (⟨hother, -⟩ | rfl)
    · exact hother
    · exact hrow
  · intro hother
    by_cases hsame : other.contextPath = p.text
    · exact .inr (List.inj_on_of_nodup_map hnodup hother hrow (hsame.trans hkey.symm))
    · exact .inl ⟨hother, hsame⟩

/-- The row of a path goes, and one that was written from its descriptor comes for it. -/
theorem Mirrors.persisted_of_rewritten {rows : List DeploymentRow} (hm : h.Mirrors rows)
    (hs : h.Stores rows) (hd : h.descriptors.get? p = some d) {row : DeploymentRow}
    (hkey : row.contextPath = p.text) (htext : row.descriptor = d.toText)
    (hs' : h'.Stores (rowsWithout rows p ++ [row])) : h'.persisted.Perm h.persisted := by
  obtain ⟨old, hold, hkey', hread⟩ := hm.row_of_descriptor hd
  -- the old row reads as the same descriptor, however it was written
  have hsame : (row.contextPath, Descriptor.ofText row.descriptor) =
      (old.contextPath, Descriptor.ofText old.descriptor) := by
    rw [hkey, hkey', hread, htext, Descriptor.ofText_toText]
  have hperm := (perm_rowsWithout hm.nodup hold hkey').map
    fun row => (row.contextPath, Descriptor.ofText row.descriptor)
  rw [List.map_append, List.map_singleton] at hperm
  rw [hs'.persisted_eq, hs.persisted_eq, List.map_append, List.map_singleton, hsame]
  exact hperm

/-! ### Both ways -/

/-- The long way round: the path is taken out, its descriptor is deployed again, and the path is
    prepared. What fails ends it. -/
def longWay (h : Host) (m : Machine) (p : ContextPath) (d : Descriptor) :
    Host × Except Failure Unit :=
  match h.undeploy p with
  | (h, .error e) => (h, .error e)
  | (h, .ok _) =>
    match h.deploy d with
    | (h, .error e) => (h, .error e)
    | (h, .ok _) => h.prepare m p

/-- The context at a path was replaced by this one, up to its id and its times. Everything else
    that is registered or stored is as before. -/
structure Replaces (h h' : Host) (p : ContextPath) (c : Context) : Prop where
  entry : (h'.contexts.get? p).map (·.anonymous) = some c.anonymous
  others : ∀ q, q ≠ p → h'.contexts.get? q = h.contexts.get? q
  descriptors : h'.descriptors = h.descriptors
  persisted : h'.persisted.Perm h.persisted

/-- What parses makes a context, whenever it is made, that can be prepared. -/
theorem exists_ofDescriptor (hparse : ContextPath.parse d.contextPath = .ok p)
    (id : DeploymentId) (made : Instant) :
    ∃ c, Context.ofDescriptor id made d = .ok c ∧ c.path = p ∧ c.IsPending := by
  have hmade : ∃ c, Context.ofDescriptor id made d = .ok c := by
    unfold Context.ofDescriptor
    rw [hparse]
    exact ⟨_, rfl⟩
  obtain ⟨c, hc⟩ := hmade
  obtain ⟨hpath, -, -, hstate, -⟩ := Context.ofDescriptor_spec hc
  rw [hparse] at hpath
  exact ⟨c, hc, (Except.ok.inj hpath).symm, .inl hstate⟩

/-- A redeployment prepares a new context for the descriptor. -/
theorem redeploy_replaces (hk : h.Keyed) (hquiet : h.registry.IsQuiet)
    (hc : h.contexts.get? p = some c) (hd : h.descriptors.get? p = some d) {new : Context}
    (hnew : Context.ofDescriptor ⟨0⟩ ⟨0, 0⟩ d = .ok new) (m : Machine) :
    let prep := new.prepare (h.environment m) ⟨0, 0⟩
    (h.redeploy m p).2 = Failure.withDoing ("Failed to redeploy context " ++ p.text) prep.outcome ∧
      h.Replaces (h.redeploy m p).1 p prep.context := by
  intro prep
  obtain ⟨made, hmade, rfl, -⟩ :=
    exists_ofDescriptor (hk.descriptor_path hd) h.supply.id h.supply.now
  have hin : h.contexts.contains made.path = true := by
    unfold PathTable.contains
    rw [hc]
    rfl
  have hcalls : (h.preparationOf m made).calls = [] :=
    Context.calls_prepare (Context.instances_ofDescriptor hmade) hquiet _
  have hpath : (h.preparationOf m made).context.path = made.path := Context.prepare_path ..
  obtain ⟨houtcome, -, hcopy⟩ :=
    Context.prepare_ofDescriptor hmade hnew (h.environment m) h.supply.now
  have hend := redeploy_of_registered hd hmade hin hcalls
  rw [hend]
  refine ⟨congrArg (Failure.withDoing _) houtcome, ?_⟩
  constructor
  case entry =>
    rw [contexts_renew, hpath, PathTable.get?_insert, if_pos rfl]
    exact congrArg some hcopy
  case others =>
    intro q hq
    rw [contexts_renew, hpath, PathTable.get?_insert, if_neg hq]
    rfl
  case descriptors => exact (descriptors_recordStartup ..).trans (descriptors_record ..)
  case persisted =>
    rw [persisted_renew]
    exact .refl _

/-- The first two operations of the long way succeed. They leave everything as it was, but for a
    context at the path that is as the descriptor makes it. -/
theorem longWay_redeploys (hk : h.Keyed) (hdb : h.database = none ∨ h.Mirrored)
    (hc : h.contexts.get? p = some c) (hd : h.descriptors.get? p = some d) (m : Machine) :
    ∃ (again : Host) (made : Context) (id : DeploymentId) (time : Instant),
      h.longWay m p d = again.prepare m p ∧
      Context.ofDescriptor id time d = .ok made ∧ made.path = p ∧ made.IsPending ∧
      again.contexts = (h.contexts.erase p).insert p made ∧
      again.descriptors = h.descriptors ∧ again.environment m = h.environment m ∧
      again.persisted.Perm h.persisted := by
  have hn : h.NeverFails := hdb.elim .inl Mirrored.neverFails
  obtain ⟨h₁, hundeploy, hcontexts₁, hdescriptors₁, hnone₁, hrows₁⟩ := undeploy_registered hn hc
  have hn₁ : h₁.NeverFails := hn.imp hnone₁ fun ⟨rows, hs⟩ => ⟨_, hrows₁ rows hs⟩
  have hfree : h₁.contexts.get? p = none := by
    rw [hcontexts₁, PathTable.get?_erase, if_pos rfl]
  obtain ⟨h₂, made, hmade, rfl, hdeploy, hcontexts₂, hdescriptors₂, hnone₂, hrows₂⟩ :=
    deploy_unregistered hn₁ (hk.descriptor_path hd) hfree
  obtain ⟨-, -, -, hstate, -⟩ := Context.ofDescriptor_spec hmade
  refine ⟨h₂, made, _, _, ?_, hmade, rfl, .inl hstate, ?_, ?_, ?_, ?_⟩
  · unfold longWay
    rw [hundeploy]
    simp only [hdeploy]
  · rw [hcontexts₂, hcontexts₁]
  · rw [hdescriptors₂, hdescriptors₁, PathTable.insert_erase hd]
  · have henv₁ := environment_undeploy h made.path m
    have henv₂ := environment_deploy h₁ d m
    rw [hundeploy] at henv₁
    rw [hdeploy] at henv₂
    exact henv₂.trans henv₁
  · rcases hdb with hnone | ⟨rows, hs, hm⟩
    · rw [persisted_of_none hnone, persisted_of_none (hnone₂ (hnone₁ hnone))]
    · obtain ⟨row, hkey, htext, hs₂⟩ := hrows₂ _ (hrows₁ rows hs)
      rw [rowsWithout_rowsWithout] at hs₂
      exact hm.persisted_of_rewritten hs hd hkey htext hs₂

/-- The last operation of the long way prepares a new context for the descriptor. -/
theorem longWay_replaces (hk : h.Keyed) (hdb : h.database = none ∨ h.Mirrored)
    (hquiet : h.registry.IsQuiet) (hc : h.contexts.get? p = some c)
    (hd : h.descriptors.get? p = some d) {new : Context}
    (hnew : Context.ofDescriptor ⟨0⟩ ⟨0, 0⟩ d = .ok new) (m : Machine) :
    let prep := new.prepare (h.environment m) ⟨0, 0⟩
    (h.longWay m p d).2 = Failure.withDoing ("Failed to prepare context " ++ p.text) prep.outcome ∧
      h.Replaces (h.longWay m p d).1 p prep.context := by
  intro prep
  obtain ⟨again, made, id, time, hway, hmade, rfl, hpending, hcontexts, hdescriptors, henv,
    hpersisted⟩ := longWay_redeploys hk hdb hc hd m
  have hhere : again.contexts.get? made.path = some made := by
    rw [hcontexts, PathTable.get?_insert, if_pos rfl]
  have hprep : again.preparationOf m made = made.prepare (h.environment m) again.supply.now := by
    unfold preparationOf
    rw [henv]
  have hcalls : (again.preparationOf m made).calls = [] := by
    rw [hprep]
    exact Context.calls_prepare (Context.instances_ofDescriptor hmade) hquiet _
  have hpath : (again.preparationOf m made).context.path = made.path := Context.prepare_path ..
  obtain ⟨houtcome, -, hcopy⟩ :=
    Context.prepare_ofDescriptor hmade hnew (h.environment m) again.supply.now
  rw [← hprep] at houtcome hcopy
  rw [hway, prepare_eq_of_pending hhere hpending hcalls]
  refine ⟨congrArg (Failure.withDoing _) houtcome, ?_⟩
  constructor
  case entry =>
    rw [contexts_settle, hpath, PathTable.get?_insert, if_pos rfl]
    exact congrArg some hcopy
  case others =>
    intro q hq
    rw [contexts_settle, hpath, PathTable.get?_insert, if_neg hq]
    show again.contexts.get? q = _
    rw [hcontexts, PathTable.get?_insert, if_neg hq, PathTable.get?_erase, if_neg hq]
  case descriptors => exact (descriptors_recordStartup ..).trans hdescriptors
  case persisted =>
    rw [persisted_settle]
    exact hpersisted

/-- Redeploying a registered path and going the long way come to the same. Both prepare a new
    context for the stored descriptor with what the host lends it at that time, whatever the old
    context had become. They are answered with how that preparation went, they leave its
    context at the path, and nothing else that is registered or stored changes. -/
theorem redeploy_as_longWay (hgrown : h.Grown) (hquiet : h.registry.IsQuiet)
    (hc : h.contexts.get? p = some c) (m : Machine) :
    ∃ d new, h.descriptors.get? p = some d ∧ Context.ofDescriptor ⟨0⟩ ⟨0, 0⟩ d = .ok new ∧
      let prep := new.prepare (h.environment m) ⟨0, 0⟩
      (h.redeploy m p).2 =
          Failure.withDoing ("Failed to redeploy context " ++ p.text) prep.outcome ∧
        (h.longWay m p d).2 =
          Failure.withDoing ("Failed to prepare context " ++ p.text) prep.outcome ∧
        h.Replaces (h.redeploy m p).1 p prep.context ∧
        h.Replaces (h.longWay m p d).1 p prep.context := by
  obtain ⟨hk, hdb⟩ := hgrown.agrees
  have hin : (h.descriptors.get? p).isSome = true := by
    rw [← hk.same_paths, hc]
    rfl
  obtain ⟨d, hd⟩ := Option.isSome_iff_exists.1 hin
  obtain ⟨new, hnew, -, -⟩ := exists_ofDescriptor (hk.descriptor_path hd) ⟨0⟩ ⟨0, 0⟩
  obtain ⟨hanswer, hreplaces⟩ := redeploy_replaces hk hquiet hc hd hnew m
  obtain ⟨hanswer', hreplaces'⟩ := longWay_replaces hk hdb hquiet hc hd hnew m
  exact ⟨d, new, hd, hnew, hanswer, hanswer', hreplaces, hreplaces'⟩

/-- A host with a started application at `/A`. -/
def servingHost : Host :=
  ((defaultHost.deploy (.ofBase "/A" "/srv/a")).1.prepare Sample.machine Sample.pathA).1

theorem grown_servingHost : servingHost.Grown := by
  have hmade : Database.inMemory.makeTables = .ok freshDatabase := by
    rfl
  have hdefault : defaultHost.Grown := .fresh rfl hmade restore_defaultHost
  exact (hdefault.step (.deploy _ _)).step (.prepare _ _ _)

/-- After the files of the application are gone, both ways fail with the same error, and leave
    the same failed context in place of the started one. -/
theorem redeploy_as_longWay_gone :
    servingHost.Grown ∧ servingHost.registry.IsQuiet ∧
      (∃ c, servingHost.contexts.get? Sample.pathA = some c ∧ c.state = .started) ∧
      ∃ d prep e, servingHost.descriptors.get? Sample.pathA = some d ∧
        e = .baseResource "/A" "/srv/a: No such file or directory (os error 2)" ∧
        (servingHost.redeploy (Sample.machine.withFiles .empty) Sample.pathA).2 =
          Failure.withDoing "Failed to redeploy context /A" (.error e) ∧
        (servingHost.longWay (Sample.machine.withFiles .empty) Sample.pathA d).2 =
          Failure.withDoing "Failed to prepare context /A" (.error e) ∧
        servingHost.Replaces
          (servingHost.redeploy (Sample.machine.withFiles .empty) Sample.pathA).1 Sample.pathA
          prep ∧
        servingHost.Replaces
          (servingHost.longWay (Sample.machine.withFiles .empty) Sample.pathA d).1 Sample.pathA
          prep := by
  have hcalm : servingHost.Calm := (calm_defaultHost.deploy _).handles (.prepare _ _ _)
  have hquiet : servingHost.registry.IsQuiet := hcalm.quiet.registry
  have hstarted : (servingHost.contexts.get? Sample.pathA).map (·.state) = some .started := by
    decide +kernel
  obtain ⟨c, hc, hstate⟩ := Option.map_eq_some_iff.1 hstarted
  obtain ⟨d, new, hd, hnew, hanswer, hanswer', hreplaces, hreplaces'⟩ :=
    redeploy_as_longWay grown_servingHost hquiet hc (Sample.machine.withFiles .empty)
  have hbase : servingHost.descriptors.get? Sample.pathA = some (.ofBase "/A" "/srv/a") := by
    decide +kernel
  have hout : (Context.ofDescriptor ⟨0⟩ ⟨0, 0⟩ (.ofBase "/A" "/srv/a")).bind (fun new =>
      (new.prepare (servingHost.environment (Sample.machine.withFiles .empty)) ⟨0, 0⟩).outcome) =
        .error (.baseResource "/A" "/srv/a: No such file or directory (os error 2)") := by
    decide +kernel
  rw [hbase] at hd
  rw [← Option.some.inj hd] at hnew
  rw [hnew] at hout
  have houtcome : (new.prepare (servingHost.environment (Sample.machine.withFiles .empty))
      ⟨0, 0⟩).outcome = .error _ := hout
  rw [houtcome] at hanswer hanswer'
  exact ⟨grown_servingHost, hquiet, ⟨c, hc, hstate⟩, d, _, _, hbase.trans hd, rfl, hanswer,
    hanswer', hreplaces, hreplaces'⟩

end Host

end Hosting
