import Hosting.Proofs.Host.Deployments
import Hosting.Proofs.Json.Formats

/-! # The registry and its stored rows

    A host that was opened from a fresh database keeps three tables with the same keys: the
    contexts, the descriptors, and the rows of its database. The operations change them one
    after the other, and a preparation may make calls before its own change is put in. The
    rows do not depend on the contexts, so they are followed on their own.

    - `Mirrors`: the rows are those of the descriptors, under the same keys.
    - `consistent_of_steps`: after every run all three tables agree.
-/

namespace Hosting

namespace Host

variable {h h' : Host} {rows : List DeploymentRow}

/-! ### Rows and descriptors -/

/-- The rows are those of the descriptors in memory. -/
structure Mirrors (h : Host) (rows : List DeploymentRow) : Prop where
  /-- No two rows have the same key. -/
  nodup : (rows.map (·.contextPath)).Nodup
  /-- A row belongs to a descriptor, and reads back as it. -/
  of_row {row : DeploymentRow} : row ∈ rows → ∃ p d, row.contextPath = p.text ∧
    h.descriptors.get? p = some d ∧ Descriptor.ofText row.descriptor = .ok d
  /-- A descriptor has a row. -/
  of_descriptor {p : ContextPath} {d : Descriptor} :
    h.descriptors.get? p = some d → ∃ row ∈ rows, row.contextPath = p.text

/-- The row of a descriptor reads back as it. -/
theorem Mirrors.row_of_descriptor (hm : h.Mirrors rows) {p : ContextPath} {d : Descriptor}
    (hd : h.descriptors.get? p = some d) :
    ∃ row ∈ rows, row.contextPath = p.text ∧ Descriptor.ofText row.descriptor = .ok d := by
  obtain ⟨row, hrow, hkey⟩ := hm.of_descriptor hd
  obtain ⟨p', d', hkey', hd', hread⟩ := hm.of_row hrow
  -- the key tells the path, and the path has one descriptor
  obtain rfl := ContextPath.ext_text (hkey.symm.trans hkey')
  rw [hd] at hd'
  obtain rfl := Option.some.inj hd'
  exact ⟨row, hrow, hkey, hread⟩

theorem nodup_rowsWithout (hnodup : (rows.map (·.contextPath)).Nodup) (path : ContextPath) :
    ((rowsWithout rows path).map (·.contextPath)).Nodup :=
  hnodup.sublist (List.filter_sublist.map _)

/-- A row in place of the one for its path. -/
theorem nodup_rowsWithout_append {path : ContextPath} {row : DeploymentRow}
    (hnodup : (rows.map (·.contextPath)).Nodup) (hkey : row.contextPath = path.text) :
    ((rowsWithout rows path ++ [row]).map (·.contextPath)).Nodup := by
  rw [List.map_append, List.map_singleton]
  refine List.nodup_append.2 ⟨nodup_rowsWithout hnodup path, by simp, ?_⟩
  -- the new key was taken out of the rows before
  intro key hleft key' hright hkeys
  obtain ⟨old, hold, rfl⟩ := List.mem_map.1 hleft
  obtain rfl := List.mem_singleton.1 hright
  exact (mem_rowsWithout.1 hold).2 (hkeys.trans hkey)

namespace Mirrors

theorem of_descriptors_eq (hm : h.Mirrors rows) (heq : h'.descriptors = h.descriptors) :
    h'.Mirrors rows := by
  refine ⟨hm.nodup, fun hrow => ?_, fun hd => ?_⟩
  · rw [heq]
    exact hm.of_row hrow
  · rw [heq] at hd
    exact hm.of_descriptor hd

/-- Where a path goes from the descriptors and from the rows, the rest still agrees. -/
theorem of_row_rowsWithout (hm : h.Mirrors rows) {path : ContextPath} {row : DeploymentRow}
    (hrow : row ∈ rowsWithout rows path) :
    ∃ p d, p ≠ path ∧ row.contextPath = p.text ∧ h.descriptors.get? p = some d ∧
      Descriptor.ofText row.descriptor = .ok d := by
  obtain ⟨hrow, hne⟩ := mem_rowsWithout.1 hrow
  obtain ⟨p, d, hp, hd, hread⟩ := hm.of_row hrow
  refine ⟨p, d, ?_, hp, hd, hread⟩
  rintro rfl
  exact hne hp

theorem of_descriptor_ne (hm : h.Mirrors rows) {p path : ContextPath} {d : Descriptor}
    (hd : h.descriptors.get? p = some d) (hne : p ≠ path) :
    ∃ row ∈ rowsWithout rows path, row.contextPath = p.text := by
  obtain ⟨row, hrow, hkey⟩ := hm.of_descriptor hd
  refine ⟨row, mem_rowsWithout.2 ⟨hrow, fun htext => ?_⟩, hkey⟩
  exact hne (ContextPath.ext_text (hkey.symm.trans htext))

/-- A descriptor comes in, with a row that was written from it. -/
theorem insert (hm : h.Mirrors rows) {path : ContextPath} {d : Descriptor} {row : DeploymentRow}
    (hkey : row.contextPath = path.text) (htext : row.descriptor = d.toText)
    (heq : h'.descriptors = h.descriptors.insert path d) :
    h'.Mirrors (rowsWithout rows path ++ [row]) := by
  refine ⟨nodup_rowsWithout_append hm.nodup hkey, ?_, ?_⟩
  · intro row' hrow'
    rw [heq]
    rcases List.mem_append.1 hrow' with hold | hnew
    · obtain ⟨p, d', hne, hp, hd', hread⟩ := hm.of_row_rowsWithout hold
      exact ⟨p, d', hp, by rw [PathTable.get?_insert, if_neg hne]; exact hd', hread⟩
    · -- the new row is the one place where the written form matters
      obtain rfl := List.mem_singleton.1 hnew
      refine ⟨path, d, hkey, by simp, ?_⟩
      rw [htext]
      exact Descriptor.ofText_toText d
  · intro p d' hd'
    rw [heq, PathTable.get?_insert] at hd'
    split at hd'
    · next hp => exact ⟨row, by simp, by rw [hkey, hp]⟩
    · next hp =>
      obtain ⟨old, hold, hold'⟩ := hm.of_descriptor_ne hd' hp
      exact ⟨old, by simp [hold], hold'⟩

/-- A descriptor goes, and its row with it. -/
theorem erase (hm : h.Mirrors rows) {path : ContextPath}
    (heq : h'.descriptors = h.descriptors.erase path) : h'.Mirrors (rowsWithout rows path) := by
  refine ⟨nodup_rowsWithout hm.nodup path, fun hrow => ?_, fun {p d} hd => ?_⟩
  · obtain ⟨p, d, hne, hp, hd, hread⟩ := hm.of_row_rowsWithout hrow
    rw [heq]
    exact ⟨p, d, hp, by rw [PathTable.get?_erase, if_neg hne]; exact hd, hread⟩
  · rw [heq, PathTable.get?_erase] at hd
    split at hd
    · simp at hd
    · next hp => exact hm.of_descriptor_ne hd hp

end Mirrors

/-! ### What the operations keep -/

/-- The database holds the descriptors in memory. -/
def Mirrored (h : Host) : Prop :=
  ∃ rows, h.Stores rows ∧ h.Mirrors rows

namespace Mirrored

theorem of_eq (hm : h.Mirrored) (hdatabase : h'.database = h.database)
    (hdescriptors : h'.descriptors = h.descriptors) : h'.Mirrored := by
  obtain ⟨rows, hs, hm⟩ := hm
  exact ⟨rows, hs.of_database_eq hdatabase, hm.of_descriptors_eq hdescriptors⟩

theorem tick (hm : h.Mirrored) : h.tick.Mirrored :=
  hm.of_eq rfl rfl

theorem deploy (hm : h.Mirrored) (d : Descriptor) : (h.deploy d).1.Mirrored := by
  obtain ⟨rows, hs, hm⟩ := hm
  rcases hs.deploy_cases d with ⟨e, -, he⟩ | ⟨path, -, -, he⟩ |
    ⟨c, stored, -, -, hstores, hput, hok⟩
  · rw [he]
    exact tick ⟨rows, hs, hm⟩
  · rw [he]
    exact tick ⟨rows, hs, hm⟩
  · rw [hok]
    refine ⟨_, hstores.record _ _ _, hm.insert rfl rfl ?_⟩
    rw [descriptors_record, hput.descriptors]
    rfl

theorem undeploy (hm : h.Mirrored) (path : ContextPath) : (h.undeploy path).1.Mirrored := by
  obtain ⟨rows, hs, hm⟩ := hm
  rcases hs.undeploy_cases path with ⟨-, he⟩ | ⟨c, removed, -, hstores, hput, hok⟩
  · rw [he]
    exact ⟨rows, hs, hm⟩
  · rw [hok]
    refine ⟨_, hstores.record _ _ _, hm.erase ?_⟩
    rw [descriptors_record, hput.descriptors]
    rfl

theorem write (hm : h.Mirrored) (hw : Write h h') : h'.Mirrored := by
  cases hw with
  | deploy d => exact hm.deploy d
  | undeploy path => exact hm.undeploy path
  | tick => exact hm.tick
  | replace c _ _ =>
    -- contexts come and go without the rows being looked at
    exact hm.of_eq rfl rfl
  | record path event details =>
    obtain ⟨rows, hs, hm⟩ := hm
    exact ⟨rows, hs.record path event details, hm.of_descriptors_eq (descriptors_record ..)⟩
  | updateSettings f => exact hm.of_eq rfl rfl
  | saveSettings =>
    obtain ⟨rows, hs, hm⟩ := hm
    exact ⟨rows, hs.saveSettings, hm.of_descriptors_eq (descriptors_saveSettings h)⟩

theorem writes (hm : h.Mirrored) (hw : Writes h h') : h'.Mirrored := by
  induction hw with
  | refl => exact hm
  | tail _ hwrite ih => exact ih.write hwrite

end Mirrored

/-! ### Runs from a fresh database -/

/-- The tables of a database that had none are made without any rows. -/
theorem tables_of_makeTables {blank db : Database} (hblank : blank.tables = .empty)
    (hmade : blank.makeTables = .ok db) :
    db.writable = true ∧ db.tables = ⟨some none, some [], some []⟩ := by
  unfold Database.makeTables Database.change at hmade
  rw [hblank, if_neg (by decide)] at hmade
  simp only at hmade
  split at hmade
  · next hw =>
    obtain rfl := Except.ok.inj hmade
    exact ⟨hw, rfl⟩
  · simp at hmade

theorem restore_of_noRows {db : Database} {events : List EventRow}
    (ht : db.tables = ⟨some none, some [], some events⟩) (registry : ProcessorRegistry)
    (supply : Supply) :
    restore db registry supply =
      .ok { ofSettings .default registry supply with database := some db } := by
  have hsettings : db.tables.loadSettings = .ok none := by
    rw [ht]
    rfl
  have hdeployments : db.tables.loadDeployments = .ok [] := by
    rw [ht]
    simp [Tables.loadDeployments, Tables.onTable]
  unfold restore
  rw [hsettings, hdeployments]
  rfl

theorem mirrored_of_restore {blank db : Database} {registry : ProcessorRegistry}
    {supply : Supply} (hblank : blank.tables = .empty) (hmade : blank.makeTables = .ok db)
    (hopened : restore db registry supply = .ok h) : h.Mirrored := by
  obtain ⟨hw, ht⟩ := tables_of_makeTables hblank hmade
  rw [restore_of_noRows ht] at hopened
  obtain rfl := Except.ok.inj hopened
  exact ⟨[], ⟨db, none, [], rfl, hw, ht⟩, by simp, fun hrow => by simp at hrow,
    fun hd => by simp [ofSettings] at hd⟩

/-- However a host that was opened from a fresh database is run, its contexts, its descriptors and
    the rows of its database have the same keys and say the same, and every context is
    settled. -/
theorem consistent_of_steps {blank db : Database} {registry : ProcessorRegistry}
    {supply : Supply} (hblank : blank.tables = .empty) (hmade : blank.makeTables = .ok db)
    (hopened : restore db registry supply = .ok h) (hsteps : Steps h h') :
    ∃ db' rows, h'.database = some db' ∧ db'.tables.deployments = some rows ∧ h'.Keyed ∧
      h'.Mirrors rows := by
  have hkeyed := keyed_restore hopened
  have hwrites := writes_of_steps hkeyed hsteps
  obtain ⟨rows, ⟨db', _, _, hdb', -, ht⟩, hmirrors⟩ :=
    (mirrored_of_restore hblank hmade hopened).writes hwrites
  exact ⟨db', rows, hdb', by rw [ht], hkeyed.writes hwrites, hmirrors⟩

/-- Processors with one that takes the application at `/A` out and deploys another in its place. -/
def restless : ProcessorRegistry :=
  .register .empty "restless"
    { name := "restless"
      configure := fun _ setup =>
        ⟨setup, [.undeploy Sample.pathA, .deploy (.ofBase "/A" "/srv/a")], none⟩ }

/-- A database in memory with its tables made. -/
def freshDatabase : Database :=
  { Database.inMemory with tables := Tables.empty.initialized }

/-- A host on that database. -/
def freshHost : Host :=
  { ofSettings .default restless ⟨0, 0⟩ with database := some freshDatabase }

theorem restore_freshHost : restore freshDatabase restless ⟨0, 0⟩ = .ok freshHost :=
  restore_of_noRows rfl restless ⟨0, 0⟩

/-- The same host after an application at `/A` was prepared, and replaced by its own processor. -/
def replacedHost : Host :=
  let d := { Descriptor.ofBase "/A" "/srv/a" with processors := ["restless"] }
  ((freshHost.deploy d).1.prepare Sample.machine Sample.pathA).1

/-- The application that was put in meanwhile is the one that is there. -/
theorem consistent_of_steps_replaced :
    Database.inMemory.makeTables = .ok freshDatabase ∧
      restore freshDatabase restless ⟨0, 0⟩ = .ok freshHost ∧ Steps freshHost replacedHost ∧
      (replacedHost.contexts.get? Sample.pathA).map (·.state) = some .deployed ∧
      ∃ db' rows, replacedHost.database = some db' ∧ db'.tables.deployments = some rows ∧
        replacedHost.Keyed ∧ replacedHost.Mirrors rows := by
  have hmade : Database.inMemory.makeTables = .ok freshDatabase := by
    rfl
  have hsteps : Steps freshHost replacedHost :=
    .tail (.tail .refl (.deploy _ _)) (.prepare _ Sample.machine Sample.pathA)
  exact ⟨hmade, restore_freshHost, hsteps, rfl,
    consistent_of_steps rfl hmade restore_freshHost hsteps⟩

end Host

end Hosting
