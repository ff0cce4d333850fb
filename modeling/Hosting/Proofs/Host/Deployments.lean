import Hosting.Proofs.Host.Tables

/-! # Deployments on a database that does not fail

    Where the database has all its tables and accepts changes, a deployment is refused for
    its path only, and an undeployment for a missing one only. What is not refused changes
    the tables in memory, the stored deployments and the history together.

    - `Stores`: the database does not fail, and holds these deployments.
    - `storedSettings`, `events`: what else it holds.
    - `register_spec`: registration, with the reason why it is refused.
    - `Stores.deploy_cases`, `Stores.undeploy_cases`: the ways in which the two operations
      end.
-/

namespace Hosting

/-- A statement that succeeds on the tables is carried out, where changes are accepted. -/
theorem Database.change_of_writable {db : Database} {tables : Tables}
    {f : Tables → Except Failure Tables} (hw : db.writable = true)
    (hf : f db.tables = .ok tables) : db.change f = .ok { db with tables } := by
  unfold change
  simp only [hf, hw, if_true]

namespace Host

variable {h h' : Host} {rows : List DeploymentRow}

/-! ### Statements that succeed -/

/-- The database of the host accepts changes, has all its tables, and holds these deployments. -/
def Stores (h : Host) (rows : List DeploymentRow) : Prop :=
  ∃ db settings events, h.database = some db ∧ db.writable = true ∧
    db.tables = ⟨some settings, some rows, some events⟩

theorem Stores.of_database_eq (hs : h.Stores rows) (heq : h'.database = h.database) :
    h'.Stores rows := by
  obtain ⟨db, settings, events, hdb, hrest⟩ := hs
  exact ⟨db, settings, events, by rw [heq, hdb], hrest⟩

theorem Stores.record (hs : h.Stores rows) (path : ContextPath) (event : String)
    (details : Option String) : (h.record path event details).Stores rows := by
  obtain ⟨db, settings, events, hdb, hw, ht⟩ := hs
  have hok := Database.change_of_writable hw
    (f := (·.recordEvent path event details h.supply.now)) (by rw [ht]; rfl)
  unfold Host.record
  simp only [hdb, hok]
  exact ⟨_, _, _, rfl, hw, rfl⟩

/-- The deployments stay, whether or not there is a text for the settings. -/
theorem Stores.saveSettings (hs : h.Stores rows) : h.saveSettings.1.Stores rows := by
  obtain ⟨db, settings, events, hdb, hw, ht⟩ := hs
  unfold Host.saveSettings
  by_cases htext : h.settings.isText = true
  · have hok := Database.change_of_writable hw (f := (·.saveSettings h.settings))
      (by rw [ht]; exact if_pos htext)
    simp only [hdb, hok]
    exact ⟨_, _, _, rfl, hw, rfl⟩
  · have hnone : db.tables.saveSettings h.settings = .error .notText := if_neg htext
    have hfails : db.change (·.saveSettings h.settings) = .error .notText := by
      unfold Database.change
      simp only [hnone]
    simp only [hdb, hfails]
    exact ⟨db, settings, events, hdb, hw, ht⟩

/-! ### What the database holds -/

/-- The tables of the database; none without a database. -/
def tables (h : Host) : Tables :=
  match h.database with
  | none => .empty
  | some db => db.tables

/-- The stored settings text. -/
def storedSettings (h : Host) : Option String :=
  h.tables.settings.getD none

/-- The history of all contexts, newest event first. -/
def events (h : Host) : List EventRow :=
  h.tables.history.getD []

theorem tables_of_database_eq (heq : h'.database = h.database) :
    h'.tables = h.tables := by
  unfold tables
  rw [heq]

theorem Stores.tables_eq (hs : h.Stores rows) :
    h.tables = ⟨some h.storedSettings, some rows, some h.events⟩ := by
  obtain ⟨db, settings, events, hdb, -, ht⟩ := hs
  simp only [storedSettings, Host.events, tables, hdb, ht, Option.getD_some]

/-- A database holds one list of deployments. -/
theorem Stores.unique {rows' : List DeploymentRow} (hs : h.Stores rows) (hs' : h.Stores rows') :
    rows = rows' := by
  have hsame := hs.tables_eq.symm.trans hs'.tables_eq
  simpa using congrArg Tables.deployments hsame

theorem Stores.history_eq (hs : h.Stores rows) (path : ContextPath) :
    h.history path = .ok (h.events.filter (·.contextPath = path.text)) := by
  obtain ⟨db, settings, events, hdb, -, ht⟩ := hs
  simp only [history, hdb, Tables.eventsOf, Tables.onTable, ht, Host.events, tables,
    Option.getD_some]

theorem Stores.tables_record (hs : h.Stores rows) (path : ContextPath) (event : String)
    (details : Option String) :
    (h.record path event details).tables =
      { h.tables with
        history := some (⟨path.text, event, h.supply.now.text, details⟩ :: h.events) } := by
  obtain ⟨db, settings, events, hdb, hw, ht⟩ := hs
  have hold : h.tables = ⟨some settings, some rows, some events⟩ := by
    unfold tables
    rw [hdb]
    exact ht
  have hevents : h.events = events := by
    unfold Host.events
    rw [hold]
    rfl
  have hok := Database.change_of_writable hw
    (f := (·.recordEvent path event details h.supply.now)) (by rw [ht]; rfl)
  unfold Host.record
  simp only [hdb, hok]
  rw [hold, hevents]
  rfl

/-- The event that says how a preparation went, and its details. -/
def startupEvent : Except HostError Unit → String × Option String
  | .ok () => ("started", none)
  | .error e => ("failed", some e.message)

theorem recordStartup_eq (h : Host) (path : ContextPath) (outcome : Except HostError Unit) :
    h.recordStartup path outcome =
      h.record path (startupEvent outcome).1 (startupEvent outcome).2 := by
  cases outcome <;> rfl

@[simp] theorem contexts_recordStartup (h : Host) (path : ContextPath)
    (outcome : Except HostError Unit) :
    (h.recordStartup path outcome).contexts = h.contexts := by
  rw [recordStartup_eq, contexts_record]

@[simp] theorem descriptors_recordStartup (h : Host) (path : ContextPath)
    (outcome : Except HostError Unit) :
    (h.recordStartup path outcome).descriptors = h.descriptors := by
  rw [recordStartup_eq, descriptors_record]

/-- The host after a statement on the deployments: everything else is as before. -/
structure SameButRows (h h' : Host) : Prop where
  contexts : h'.contexts = h.contexts
  descriptors : h'.descriptors = h.descriptors
  storedSettings : h'.storedSettings = h.storedSettings
  events : h'.events = h.events

/-- A statement on the deployments. -/
theorem Stores.onDatabase (hs : h.Stores rows) (f : Tables → Except Failure Tables)
    (rows' : List DeploymentRow)
    (hf : ∀ settings events, f ⟨some settings, some rows, some events⟩ =
      .ok ⟨some settings, some rows', some events⟩) :
    ∃ h', h.onDatabase f = (h', .ok ()) ∧ h'.Stores rows' ∧ h.SameButRows h' := by
  obtain ⟨db, settings, events, hdb, hw, ht⟩ := hs
  have hresult := hf settings events
  rw [← ht] at hresult
  have hok := Database.change_of_writable hw hresult
  have hon : h.onDatabase f = ({ h with
      database := some { db with tables := ⟨some settings, some rows', some events⟩ } },
      .ok ()) := by
    unfold Host.onDatabase
    simp only [hdb, hok]
  refine ⟨_, hon, ⟨_, _, _, rfl, hw, rfl⟩, rfl, rfl, ?_, ?_⟩
  · simp only [Host.storedSettings, tables, hdb, ht]
  · simp only [Host.events, tables, hdb, ht]

theorem Stores.storedSettings_record (hs : h.Stores rows) (path : ContextPath) (event : String)
    (details : Option String) :
    (h.record path event details).storedSettings = h.storedSettings := by
  unfold storedSettings
  rw [hs.tables_record]

theorem Stores.events_record (hs : h.Stores rows) (path : ContextPath) (event : String)
    (details : Option String) :
    (h.record path event details).events =
      ⟨path.text, event, h.supply.now.text, details⟩ :: h.events := by
  unfold events
  rw [hs.tables_record]
  rfl

/-! ### Registration -/

/-- Registration refuses a path that does not parse and one that is taken. -/
theorem register_spec (h : Host) (d : Descriptor) :
    (∃ e, ContextPath.parse d.contextPath = .error e ∧ h.register d = (h.tick, .error e)) ∨
      (∃ path, ContextPath.parse d.contextPath = .ok path ∧ h.contexts.contains path = true ∧
        h.register d = (h.tick, .error (.duplicateContext path.text))) ∨
      ∃ c, Context.ofDescriptor h.supply.id h.supply.now d = .ok c ∧
        h.contexts.contains c.path = false ∧
        h.register d = ((h.tick.insertContext c).insertDescriptor c.path d, .ok c.path) := by
  unfold register
  cases hparse : ContextPath.parse d.contextPath with
  | error e =>
    have hc : Context.ofDescriptor h.supply.id h.supply.now d = .error e := by
      unfold Context.ofDescriptor
      rw [hparse]
    rw [hc]
    exact .inl ⟨e, rfl, rfl⟩
  | ok path =>
    right
    cases hc : Context.ofDescriptor h.supply.id h.supply.now d with
    | error e =>
      unfold Context.ofDescriptor at hc
      rw [hparse] at hc
      simp at hc
    | ok c =>
      have hpath : c.path = path := by
        have := (Context.ofDescriptor_spec hc).1
        rw [hparse] at this
        exact (Except.ok.inj this).symm
      simp only
      cases htaken : h.contexts.contains c.path with
      | true =>
        rw [if_pos rfl]
        exact .inl ⟨path, rfl, by rw [← hpath]; exact htaken, by rw [hpath]⟩
      | false =>
        rw [if_neg (by simp)]
        exact .inr ⟨c, rfl, htaken, rfl⟩

/-- What registration does to the descriptors. -/
theorem descriptors_register {path : ContextPath} (h : Host) {d : Descriptor}
    (hparse : ContextPath.parse d.contextPath = .ok path) :
    (h.register d).1.descriptors =
      if h.contexts.contains path = true then h.descriptors else h.descriptors.insert path d := by
  rcases register_spec h d with ⟨e, he, -⟩ | ⟨p, hp, htaken, hr⟩ | ⟨c, hc, hfree, hr⟩
  · rw [hparse] at he
    simp at he
  · rw [hparse] at hp
    obtain rfl := Except.ok.inj hp
    rw [hr, if_pos htaken]
    rfl
  · have hp := (Context.ofDescriptor_spec hc).1
    rw [hparse] at hp
    obtain rfl := Except.ok.inj hp
    rw [hr, hfree, if_neg (by simp)]
    rfl

/-- Registration where the path is free. -/
theorem register_of_free {d : Descriptor} {path : ContextPath}
    (hparse : ContextPath.parse d.contextPath = .ok path) (hfree : h.contexts.get? path = none) :
    ∃ c, Context.ofDescriptor h.supply.id h.supply.now d = .ok c ∧ c.path = path ∧
      h.register d = ((h.tick.insertContext c).insertDescriptor path d, .ok path) := by
  rcases register_spec h d with ⟨e, he, -⟩ | ⟨p, hp, htaken, -⟩ | ⟨c, hc, -, hr⟩
  · rw [hparse] at he
    cases he
  · obtain rfl := Except.ok.inj (hparse.symm.trans hp)
    simp [PathTable.contains, hfree] at htaken
  · obtain rfl := Except.ok.inj (hparse.symm.trans (Context.ofDescriptor_spec hc).1)
    exact ⟨c, hc, rfl, hr⟩

/-! ### Deployment and undeployment -/

/-- The rows without the one for a path. -/
def rowsWithout (rows : List DeploymentRow) (path : ContextPath) : List DeploymentRow :=
  rows.filter (·.contextPath ≠ path.text)

theorem mem_rowsWithout {path : ContextPath} {row : DeploymentRow} :
    row ∈ rowsWithout rows path ↔ row ∈ rows ∧ row.contextPath ≠ path.text := by
  simp [rowsWithout]

/-- Deployment is refused as registration is. Otherwise the new context is there, and the
    database holds it, in place of one for the same path, and says so. -/
theorem Stores.deploy_cases (hs : h.Stores rows) (d : Descriptor) :
    (∃ e, ContextPath.parse d.contextPath = .error e ∧
        h.deploy d = (h.tick, .error (.host e))) ∨
      (∃ path, ContextPath.parse d.contextPath = .ok path ∧ h.contexts.contains path = true ∧
        h.deploy d = (h.tick, .error (.host (.duplicateContext path.text)))) ∨
      ∃ c stored, Context.ofDescriptor h.supply.id h.supply.now d = .ok c ∧
        h.contexts.contains c.path = false ∧
        stored.Stores (rowsWithout rows c.path ++
          [⟨c.path.text, c.id.text, d.toText, c.deployedAt.text⟩]) ∧
        ((h.tick.insertContext c).insertDescriptor c.path d).SameButRows stored ∧
        h.deploy d = (stored.record c.path "deployed" none, .ok c.path) := by
  rcases register_spec h d with ⟨e, he, hr⟩ | ⟨path, hp, htaken, hr⟩ | ⟨c, hc, hfree, hr⟩
  · left
    refine ⟨e, he, ?_⟩
    unfold Host.deploy
    rw [hr]
  · right; left
    refine ⟨path, hp, htaken, ?_⟩
    unfold Host.deploy
    rw [hr]
  · right; right
    have hparse := (Context.ofDescriptor_spec hc).1
    let registered := (h.tick.insertContext c).insertDescriptor c.path d
    have hregistered : registered.Stores rows := hs.of_database_eq rfl
    obtain ⟨stored, hstored, hs', hsame⟩ := hregistered.onDatabase
      (fun tables => tables.saveDeployment d c.id c.deployedAt) _ fun settings events => by
        unfold Tables.saveDeployment
        rw [hparse]
        rfl
    -- the context is in the table by then, so the statement is run
    have hget : registered.contexts.get? c.path = some c := by
      show (h.tick.insertContext c).contexts.get? c.path = some c
      simp
    have hstore : registered.storeDeployment c.path d = (stored, .ok ()) := by
      unfold Host.storeDeployment
      rw [hget]
      exact hstored
    refine ⟨c, stored, hc, hfree, hs', hsame, ?_⟩
    unfold Host.deploy
    rw [hr]
    simp only [registered] at hstore
    simp only [hstore]

/-- Undeployment is refused where nothing is registered. Otherwise the context is gone, and so is
    its row. -/
theorem Stores.undeploy_cases (hs : h.Stores rows) (path : ContextPath) :
    (h.contexts.get? path = none ∧
        h.undeploy path = (h, .error (.host (.noSuchContext path.text)))) ∨
      ∃ c removed, h.contexts.get? path = some c ∧ removed.Stores (rowsWithout rows path) ∧
        ((h.removeContext path).removeDescriptor path).SameButRows removed ∧
        h.undeploy path = (removed.record path "undeployed" none, .ok c.markStopped) := by
  unfold Host.undeploy
  cases hget : h.contexts.get? path with
  | none => exact .inl ⟨rfl, rfl⟩
  | some c =>
    right
    let taken := (h.removeContext path).removeDescriptor path
    have htaken : taken.Stores rows := hs.of_database_eq rfl
    obtain ⟨removed, hremoved, hs', hsame⟩ := htaken.onDatabase
      (fun tables => tables.deleteDeployment path) (rowsWithout rows path)
      fun settings events => rfl
    refine ⟨c, removed, rfl, hs', hsame, ?_⟩
    simp only [taken] at hremoved
    simp only [hremoved]

end Host

end Hosting
