import Hosting.Proofs.Host.Turns

/-! # Events of a path

    Whether an event is written depends on the database only: it has to accept changes and to
    have a table for events. An event that cannot be written is dropped, and the host goes on.

    - `heard`: the history of a path without its times.
    - `takesEvents`: events are written.
    - `heard_record`, `takesEvents_record`: what is heard after an event, on any database.
    - `heard_settle`: what is heard after a preparation.
-/

namespace Hosting

namespace Host

/-- The events of a path with their details, newest first. -/
def heard (h : Host) (path : ContextPath) : Except Failure (List (String × Option String)) :=
  (h.history path).map (·.map fun row => (row.event, row.details))

/-- Events are written: there is a database, it accepts changes, and it has a table for them. -/
def takesEvents (h : Host) : Bool :=
  match h.database with
  | none => false
  | some db => db.writable && db.tables.history.isSome

theorem heard_of_database_eq {h h' : Host} (heq : h'.database = h.database)
    (path : ContextPath) : h'.heard path = h.heard path := by
  unfold heard history
  rw [heq]

theorem takesEvents_of_database_eq {h h' : Host} (heq : h'.database = h.database) :
    h'.takesEvents = h.takesEvents := by
  unfold takesEvents
  rw [heq]

/-- The history can be read where events are written. -/
theorem exists_heard {h : Host} (ht : h.takesEvents = true) (path : ContextPath) :
    ∃ told, h.heard path = .ok told := by
  unfold takesEvents at ht
  split at ht
  · simp at ht
  · next db hdb =>
    rw [Bool.and_eq_true, Option.isSome_iff_exists] at ht
    obtain ⟨-, events, hevents⟩ := ht
    unfold heard history
    simp only [hdb, Tables.eventsOf, Tables.onTable, hevents]
    exact ⟨_, rfl⟩

/-! ### Writing an event -/

/-- An event is written where events are, and otherwise the database stays as it is. -/
theorem database_record (h : Host) (path : ContextPath) (event : String)
    (details : Option String) :
    (h.takesEvents = false ∧ (h.record path event details).database = h.database) ∨
      ∃ db events, h.database = some db ∧ db.writable = true ∧
        db.tables.history = some events ∧ h.takesEvents = true ∧
        (h.record path event details).database = some { db with tables := { db.tables with
          history := some (⟨path.text, event, h.supply.now.text, details⟩ :: events) } } := by
  unfold record takesEvents
  cases hdb : h.database with
  | none => exact .inl ⟨rfl, hdb⟩
  | some db =>
    cases hevents : db.tables.history with
    | none =>
      have hchange : db.change (·.recordEvent path event details h.supply.now) =
          .error (.database (.noTable "deployment_history")) := by
        unfold Database.change Tables.recordEvent
        simp only [hevents, Tables.onTable]
      simp only [hchange]
      exact .inl ⟨by simp [hevents], hdb⟩
    | some events =>
      have hadded : db.tables.recordEvent path event details h.supply.now = .ok { db.tables with
          history := some (⟨path.text, event, h.supply.now.text, details⟩ :: events) } := by
        unfold Tables.recordEvent
        rw [hevents]
        rfl
      cases hw : db.writable with
      | false =>
        have hchange : db.change (·.recordEvent path event details h.supply.now) =
            .error (.database .readOnly) := by
          unfold Database.change
          simp only [hadded, hw]
          rfl
        simp only [hchange]
        exact .inl ⟨by simp [hw], hdb⟩
      | true =>
        have hchange := Database.change_of_writable hw
          (f := (·.recordEvent path event details h.supply.now)) hadded
        simp only [hchange]
        exact .inr ⟨db, events, rfl, hw, hevents, by simp [hw, hevents], rfl⟩

@[simp] theorem takesEvents_record (h : Host) (path : ContextPath) (event : String)
    (details : Option String) : (h.record path event details).takesEvents = h.takesEvents := by
  rcases database_record h path event details with ⟨-, hsame⟩ |
    ⟨db, events, -, hw, -, ht, hwritten⟩
  · exact takesEvents_of_database_eq hsame
  · rw [ht]
    unfold takesEvents
    simp only [hwritten, hw]
    rfl

/-- An event is heard of its own path, as the newest one. -/
theorem heard_record (h : Host) (path : ContextPath) (event : String) (details : Option String)
    (p : ContextPath) :
    (h.record path event details).heard p =
      if h.takesEvents = true ∧ p = path then (h.heard p).map ((event, details) :: ·)
      else h.heard p := by
  rcases database_record h path event details with ⟨ht, hsame⟩ |
    ⟨db, events, hdb, hw, hevents, ht, hwritten⟩
  · rw [if_neg (by simp [ht])]
    exact heard_of_database_eq hsame p
  · have hnow : (h.record path event details).heard p = .ok
        (((⟨path.text, event, h.supply.now.text, details⟩ :: events : List EventRow).filter
          (·.contextPath = p.text)).map fun row => (row.event, row.details)) := by
      unfold heard history
      rw [hwritten]
      rfl
    have hbefore : h.heard p = .ok
        ((events.filter (·.contextPath = p.text)).map fun row => (row.event, row.details)) := by
      unfold heard history
      simp only [hdb, Tables.eventsOf, Tables.onTable, hevents]
      rfl
    rw [hnow, hbefore]
    by_cases hp : p = path
    · rw [if_pos ⟨ht, hp⟩, hp, List.filter_cons_of_pos (by simp)]
      rfl
    · have htext : path.text ≠ p.text := fun heq => hp (ContextPath.ext_text heq.symm)
      rw [if_neg fun hboth => hp hboth.2, List.filter_cons_of_neg (by simpa using htext)]

/-! ### How a preparation went -/

@[simp] theorem takesEvents_recordStartup (h : Host) (path : ContextPath)
    (outcome : Except HostError Unit) :
    (h.recordStartup path outcome).takesEvents = h.takesEvents := by
  rw [recordStartup_eq, takesEvents_record]

theorem heard_recordStartup (h : Host) (path : ContextPath) (outcome : Except HostError Unit)
    (p : ContextPath) :
    (h.recordStartup path outcome).heard p =
      if h.takesEvents = true ∧ p = path then (h.heard p).map (startupEvent outcome :: ·)
      else h.heard p := by
  rw [recordStartup_eq, heard_record]

@[simp] theorem takesEvents_settle (h : Host) (prep : Preparation) :
    (h.settle prep).takesEvents = h.takesEvents :=
  (takesEvents_recordStartup ..).trans (takesEvents_of_database_eq rfl)

theorem heard_settle (h : Host) (prep : Preparation) (p : ContextPath) :
    (h.settle prep).heard p =
      if h.takesEvents = true ∧ p = prep.context.path then
        (h.heard p).map (startupEvent prep.outcome :: ·)
      else h.heard p :=
  heard_recordStartup (h.insertContext prep.context) prep.context.path prep.outcome p

end Host

end Hosting
