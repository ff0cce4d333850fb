import Hosting.Proofs.Host.Registry
import Mathlib.Data.List.Induction

/-! # The table of deployments as a map

    Deployments are saved under the normalised path of their descriptor and deleted by path. A row
    is stored in place of the one with the same key, so after any requests the table has, for
    each key, the row of the last request about that key, if that request stored one.

    Loading leaves out the rows whose text does not read, which other programs may have put
    there, and sorts the rest by the text of their time and then by key. What is loaded is
    therefore determined by the requests.

    - `Request.rowsAfter`: the rows after one request, whatever it is.
    - `IsLast`: the last request about a key.
    - `Collects`, `exists_collects`: the rows after any requests.
    - `loads_last_saved`: what is loaded after any requests.
-/

namespace Hosting.Database

/-! ### Requests -/

/-- A change of the stored deployments. -/
inductive Request where
  | save (d : Descriptor) (id : DeploymentId) (time : Instant)
  | delete (path : ContextPath)
  /-- Another program puts a row in place of the one with the same key. -/
  | put (row : DeploymentRow)
deriving DecidableEq, Repr

/-- What is known of a stored deployment when it is loaded. -/
structure Entry where
  /-- The text of the normalised path. -/
  key : String
  /-- The time of the deployment, as it is stored. -/
  time : String
  descriptor : Descriptor
deriving DecidableEq, Repr

/-- An entry comes before another: by time, and at one time by key. -/
def Entry.Precedes (a b : Entry) : Prop :=
  a.time < b.time ∨ a.time = b.time ∧ a.key < b.key

namespace Request

/-- The statement that carries a request out. -/
def statement : Request → Tables → Except Failure Tables
  | .save d id time => fun t => t.saveDeployment d id time
  | .delete path => fun t => t.deleteDeployment path
  | .put row => fun t => t.putDeployment row

/-- The key that a request is about. One with an invalid path is about none. -/
def key? : Request → Option String
  | .save d _ _ => (ContextPath.parse d.contextPath).toOption.map (·.text)
  | .delete path => some path.text
  | .put row => some row.contextPath

/-- The entry that a request stores. A row whose text does not read is no entry. -/
def stored? : Request → Option Entry
  | .save d _ time =>
    (ContextPath.parse d.contextPath).toOption.map fun path => ⟨path.text, time.text, d⟩
  | .delete _ => none
  | .put row =>
    (Descriptor.ofText row.descriptor).toOption.map fun d => ⟨row.contextPath, row.deployedAt, d⟩

/-- The row that a request stores. -/
def row? : Request → Option DeploymentRow
  | .save d id time =>
    (ContextPath.parse d.contextPath).toOption.map fun path =>
      ⟨path.text, id.text, d.toText, time.text⟩
  | .delete _ => none
  | .put row => some row

/-- The rows after a request: those with another key, and the one that it stores. -/
def rowsAfter (r : Request) (rows : List DeploymentRow) : List DeploymentRow :=
  (rows.filter fun row => r.key? ≠ some row.contextPath) ++ r.row?.toList

end Request

/-- The database after a request. One that fails leaves it as it is. -/
def after (db : Database) (r : Request) : Database :=
  match db.change r.statement with
  | .ok changed => changed
  | .error _ => db

/-- The database after requests. -/
def afterAll (db : Database) (requests : List Request) : Database :=
  requests.foldl after db

/-- Among the requests, one makes `x`, and none behind it is about the key of `x`. -/
def IsLast {α : Type} (make? : Request → Option α) (keyOf : α → String) (requests : List Request)
    (x : α) : Prop :=
  ∃ earlier r later, requests = earlier ++ r :: later ∧ make? r = some x ∧
    ∀ r' ∈ later, r'.key? ≠ some (keyOf x)

/-- The entry is that of the last request about its key. -/
def Stands (requests : List Request) (e : Entry) : Prop :=
  IsLast Request.stored? Entry.key requests e

/-! ### The last request about a key -/

section Last

variable {α : Type} {make? : Request → Option α} {keyOf : α → String} {requests : List Request}
  {x : α}

theorem not_isLast_nil : ¬ IsLast make? keyOf [] x := by
  intro ⟨earlier, r, later, hsplit, _⟩
  simp at hsplit

/-- The last of the requests decides, unless it is about something else. -/
theorem isLast_concat {r : Request} :
    IsLast make? keyOf (requests ++ [r]) x ↔
      make? r = some x ∨ IsLast make? keyOf requests x ∧ r.key? ≠ some (keyOf x) := by
  constructor
  · intro ⟨earlier, made, later, hsplit, hmade, hlater⟩
    rcases List.eq_nil_or_concat later with hnil | ⟨front, last, hfront⟩
    · -- nothing is behind the request that makes `x`, so this is the new one
      rw [hnil] at hsplit
      obtain ⟨-, hlast⟩ := List.append_inj' hsplit rfl
      rw [(List.cons.inj hlast).1]
      exact .inl hmade
    · rw [List.concat_eq_append] at hfront
      rw [hfront, ← List.cons_append, ← List.append_assoc] at hsplit
      obtain ⟨hinit, hlast⟩ := List.append_inj' hsplit rfl
      rw [hfront] at hlater
      rw [(List.cons.inj hlast).1]
      refine .inr ⟨⟨earlier, made, front, hinit, hmade, ?_⟩, hlater last (by simp)⟩
      intro r' hr'
      exact hlater r' (List.mem_append_left _ hr')
  · intro h
    rcases h with hmade | ⟨⟨earlier, made, later, hsplit, hmade, hlater⟩, hkey⟩
    · exact ⟨requests, r, [], rfl, hmade, by simp⟩
    · refine ⟨earlier, made, later ++ [r], by rw [hsplit]; simp, hmade, ?_⟩
      intro r' hr'
      rcases List.mem_append.1 hr' with hold | hnew
      · exact hlater r' hold
      · rw [List.mem_singleton.1 hnew]
        exact hkey

end Last

/-! ### One request -/

variable {db : Database} {settings : Option String} {rows : List DeploymentRow}
  {events : List EventRow} {requests : List Request} {r : Request}

namespace Request

theorem save_of_ok {d : Descriptor} {path : ContextPath}
    (h : ContextPath.parse d.contextPath = .ok path) (id : DeploymentId) (time : Instant) :
    (save d id time).key? = some path.text ∧
      (save d id time).row? = some ⟨path.text, id.text, d.toText, time.text⟩ := by
  simp [key?, row?, h, Except.toOption]

theorem save_of_error {d : Descriptor} {e : HostError}
    (h : ContextPath.parse d.contextPath = .error e) (id : DeploymentId) (time : Instant) :
    (save d id time).key? = none ∧ (save d id time).row? = none := by
  simp [key?, row?, h, Except.toOption]

/-- Only a save with an invalid path is about no key. -/
theorem key?_eq_none_iff : r.key? = none ↔
    ∃ d id time e, r = .save d id time ∧ ContextPath.parse d.contextPath = .error e := by
  constructor
  · intro h
    cases r with
    | save d id time =>
      cases hparse : ContextPath.parse d.contextPath with
      | error e => exact ⟨d, id, time, e, rfl, hparse⟩
      | ok path =>
        rw [(save_of_ok hparse id time).1] at h
        cases h
    | delete path => cases h
    | put row => cases h
  · intro ⟨d, id, time, e, hsave, he⟩
    rw [hsave]
    exact (save_of_error he id time).1

theorem key?_of_row? {row : DeploymentRow} (h : r.row? = some row) :
    r.key? = some row.contextPath := by
  cases r with
  | save d id time =>
    obtain ⟨path, hpath, rfl⟩ := Option.map_eq_some_iff.1 h
    exact Option.map_eq_some_iff.2 ⟨path, hpath, rfl⟩
  | delete path => cases h
  | put row' =>
    cases h
    rfl

theorem rowsAfter_of_key? {key : String} (h : r.key? = some key) :
    r.rowsAfter rows = rows.filter (·.contextPath ≠ key) ++ r.row?.toList := by
  have hfilter : rows.filter (fun row => r.key? ≠ some row.contextPath) =
      rows.filter (·.contextPath ≠ key) := by
    apply List.filter_congr
    intro row _
    simp [h, eq_comm]
  unfold rowsAfter
  rw [hfilter]

/-- A request about a key succeeds. -/
theorem statement_of_key? (h : r.key? ≠ none) :
    r.statement ⟨some settings, some rows, some events⟩ =
      .ok ⟨some settings, some (r.rowsAfter rows), some events⟩ := by
  cases r with
  | save d id time =>
    cases hparse : ContextPath.parse d.contextPath with
    | error e => exact absurd (save_of_error hparse id time).1 h
    | ok path =>
      obtain ⟨hkey, hrow⟩ := save_of_ok hparse id time
      rw [rowsAfter_of_key? hkey, hrow]
      show Tables.saveDeployment _ d id time = _
      unfold Tables.saveDeployment
      rw [hparse]
      rfl
  | delete path =>
    have hkey : (delete path).key? = some path.text := rfl
    rw [rowsAfter_of_key? hkey]
    show _ = Except.ok (Tables.mk _ (some (_ ++ [])) _)
    rw [List.append_nil]
    rfl
  | put row =>
    have hkey : (put row).key? = some row.contextPath := rfl
    rw [rowsAfter_of_key? hkey]
    rfl

/-- A save with an invalid path fails, and would store nothing. -/
theorem statement_of_invalid {d : Descriptor} {e : HostError}
    (h : ContextPath.parse d.contextPath = .error e) (id : DeploymentId) (time : Instant)
    (t : Tables) : (save d id time).statement t = .error (.host e) := by
  show t.saveDeployment d id time = _
  unfold Tables.saveDeployment
  rw [h]

theorem rowsAfter_of_invalid {d : Descriptor} {e : HostError}
    (h : ContextPath.parse d.contextPath = .error e) (id : DeploymentId) (time : Instant) :
    (save d id time).rowsAfter rows = rows := by
  obtain ⟨hkey, hrow⟩ := save_of_error h id time
  unfold rowsAfter
  rw [hkey, hrow, Option.toList_none, List.append_nil]
  apply List.filter_eq_self.2
  intro row _
  simp

end Request

/-- The database accepts changes, and has all its tables, with these rows as deployments. -/
def HoldsRows (db : Database) (rows : List DeploymentRow) : Prop :=
  db.writable = true ∧ ∃ settings events, db.tables = ⟨some settings, some rows, some events⟩

/-- A request about a key is carried out. -/
theorem HoldsRows.change (h : db.HoldsRows rows) (hkey : r.key? ≠ none) :
    db.change r.statement = .ok (db.after r) ∧ (db.after r).HoldsRows (r.rowsAfter rows) := by
  obtain ⟨hw, settings, events, ht⟩ := h
  have hstatement : r.statement db.tables =
      .ok ⟨some settings, some (r.rowsAfter rows), some events⟩ := by
    rw [ht]
    exact Request.statement_of_key? hkey
  have hchange := change_of_writable hw hstatement
  unfold after
  simp only [hchange]
  exact ⟨trivial, hw, settings, events, rfl⟩

/-- A save with an invalid path is an error, and the database stays as it is. -/
theorem change_of_invalid {d : Descriptor} {e : HostError}
    (h : ContextPath.parse d.contextPath = .error e) (id : DeploymentId) (time : Instant)
    (db : Database) :
    db.change (Request.save d id time).statement = .error (.host e) ∧
      db.after (.save d id time) = db := by
  have hstatement := Request.statement_of_invalid h id time db.tables
  have hchange : db.change (Request.save d id time).statement = .error (.host e) := by
    unfold Database.change
    simp only [hstatement]
  refine ⟨hchange, ?_⟩
  unfold after
  simp only [hchange]

theorem HoldsRows.after (h : db.HoldsRows rows) (r : Request) :
    (db.after r).HoldsRows (r.rowsAfter rows) := by
  by_cases hkey : r.key? = none
  · obtain ⟨d, id, time, e, rfl, he⟩ := Request.key?_eq_none_iff.1 hkey
    rw [(change_of_invalid he id time db).2, Request.rowsAfter_of_invalid he id time]
    exact h
  · exact (h.change hkey).2

/-! ### All requests -/

/-- The rows are those that the last requests about their keys have stored, one for each key. -/
structure Collects (requests : List Request) (rows : List DeploymentRow) : Prop where
  nodup : (rows.map (·.contextPath)).Nodup
  mem_iff (row : DeploymentRow) :
    row ∈ rows ↔ IsLast Request.row? (·.contextPath) requests row

theorem collects_nil : Collects [] [] := by
  refine ⟨.nil, ?_⟩
  intro row
  exact iff_of_false List.not_mem_nil not_isLast_nil

theorem Collects.concat (h : Collects requests rows) (r : Request) :
    Collects (requests ++ [r]) (r.rowsAfter rows) := by
  have hkept {row : DeploymentRow} :
      row ∈ (rows.filter fun row => r.key? ≠ some row.contextPath) ↔
        row ∈ rows ∧ r.key? ≠ some row.contextPath := by
    rw [List.mem_filter, decide_eq_true_eq]
  unfold Request.rowsAfter
  constructor
  · rw [List.map_append]
    refine List.nodup_append.2 ⟨h.nodup.sublist (List.filter_sublist.map _), ?_, ?_⟩
    · cases r.row? <;> simp
    · -- the rows with the key of the new one were taken out
      intro key hleft key' hright heq
      obtain ⟨old, hold, rfl⟩ := List.mem_map.1 hleft
      obtain ⟨new, hnew, rfl⟩ := List.mem_map.1 hright
      have hkey := Request.key?_of_row? (Option.mem_toList.1 hnew)
      rw [← heq] at hkey
      exact (hkept.1 hold).2 hkey
  · intro row
    rw [isLast_concat, List.mem_append, hkept, h.mem_iff, Option.mem_toList, or_comm]

theorem afterAll_concat (db : Database) (requests : List Request) (r : Request) :
    db.afterAll (requests ++ [r]) = (db.afterAll requests).after r := by
  unfold afterAll
  rw [List.foldl_append]
  rfl

/-- After any requests, the table has the rows of the last requests about their keys. -/
theorem exists_collects (h : db.HoldsRows []) (requests : List Request) :
    ∃ rows, (db.afterAll requests).HoldsRows rows ∧ Collects requests rows := by
  induction requests using List.reverseRecOn with
  | nil => exact ⟨[], h, collects_nil⟩
  | append_singleton requests r ih =>
    obtain ⟨rows, hholds, hcollects⟩ := ih
    rw [afterAll_concat]
    exact ⟨_, hholds.after r, hcollects.concat r⟩

/-! ### Loading -/

/-- The entry that a row holds, if its text reads. -/
def entryOf? (row : DeploymentRow) : Option Entry :=
  (Descriptor.ofText row.descriptor).toOption.map fun d => ⟨row.contextPath, row.deployedAt, d⟩

/-- What is saved reads back. -/
theorem Request.stored?_eq (r : Request) : r.stored? = r.row?.bind entryOf? := by
  cases r with
  | save d id time =>
    have hread := Descriptor.ofText_toText d
    cases hparse : ContextPath.parse d.contextPath with
    | error e => simp [stored?, row?, hparse, Except.toOption]
    | ok path => simp [stored?, row?, entryOf?, hparse, hread, Except.toOption]
  | delete path => rfl
  | put row => rfl

theorem key_of_entryOf? {row : DeploymentRow} {e : Entry} (h : entryOf? row = some e) :
    e.key = row.contextPath ∧ e.time = row.deployedAt := by
  obtain ⟨d, -, rfl⟩ := Option.map_eq_some_iff.1 h
  exact ⟨rfl, rfl⟩

/-- An entry stands if its row does. -/
theorem stands_iff {e : Entry} :
    Stands requests e ↔
      ∃ row, IsLast Request.row? (·.contextPath) requests row ∧ entryOf? row = some e := by
  constructor
  · intro ⟨earlier, r, later, hsplit, hentry, hlater⟩
    rw [Request.stored?_eq] at hentry
    obtain ⟨row, hrow, hentry⟩ := Option.bind_eq_some_iff.1 hentry
    refine ⟨row, ⟨earlier, r, later, hsplit, hrow, ?_⟩, hentry⟩
    show ∀ r' ∈ later, r'.key? ≠ some row.contextPath
    rw [← (key_of_entryOf? hentry).1]
    exact hlater
  · intro ⟨row, ⟨earlier, r, later, hsplit, hrow, hlater⟩, hentry⟩
    refine ⟨earlier, r, later, hsplit, ?_, ?_⟩
    · rw [Request.stored?_eq, hrow]
      exact hentry
    · rw [(key_of_entryOf? hentry).1]
      exact hlater

/-- What is loaded comes by time, and then by key. -/
theorem earlier_iff {a b : DeploymentRow} :
    Tables.earlier a b = true ↔ a.deployedAt < b.deployedAt ∨
      a.deployedAt = b.deployedAt ∧ a.contextPath ≤ b.contextPath := by
  unfold Tables.earlier
  by_cases htime : a.deployedAt = b.deployedAt
  · rw [if_pos htime, decide_eq_true_eq]
    have hnot : ¬ a.deployedAt < b.deployedAt := by
      rw [htime]
      exact String.lt_irrefl _
    rw [or_iff_right hnot, and_iff_right htime]
  · rw [if_neg htime, decide_eq_true_eq, or_iff_left (fun h => htime h.1)]
    constructor
    · intro hle
      exact Std.lt_of_le_of_ne hle htime
    · intro hlt
      exact Std.le_of_lt hlt

/-- The rows in the order in which they are loaded. -/
theorem pairwise_mergeSort_earlier (rows : List DeploymentRow) :
    (rows.mergeSort Tables.earlier).Pairwise fun a b => Tables.earlier a b = true := by
  apply List.pairwise_mergeSort
  · intro a b c hab hbc
    rw [earlier_iff] at hab hbc ⊢
    rcases hab with hab | ⟨hab, hab'⟩
    · rcases hbc with hbc | ⟨hbc, -⟩
      · exact .inl (String.lt_trans hab hbc)
      · rw [hbc] at hab
        exact .inl hab
    · rw [hab]
      rcases hbc with hbc | ⟨hbc, hbc'⟩
      · exact .inl hbc
      · exact .inr ⟨hbc, String.le_trans hab' hbc'⟩
  · intro a b
    rw [Bool.or_eq_true, earlier_iff, earlier_iff]
    rcases Std.lt_trichotomy a.deployedAt b.deployedAt with hlt | htime | hgt
    · exact .inl (.inl hlt)
    · rcases String.le_total a.contextPath b.contextPath with hle | hle
      · exact .inl (.inr ⟨htime, hle⟩)
      · exact .inr (.inr ⟨htime.symm, hle⟩)
    · exact .inr (.inl hgt)

/-- The entries of rows, in the order in which they are loaded. -/
def entriesOf (rows : List DeploymentRow) : List Entry :=
  (rows.mergeSort Tables.earlier).filterMap entryOf?

theorem HoldsRows.load (h : db.HoldsRows rows) :
    db.tables.loadDeployments = .ok ((entriesOf rows).map (·.descriptor)) := by
  obtain ⟨-, settings, events, ht⟩ := h
  have hread (row : DeploymentRow) :
      (entryOf? row).map (·.descriptor) = (Descriptor.ofText row.descriptor).toOption := by
    unfold entryOf?
    rw [Option.map_map]
    exact Option.map_id'
  rw [ht]
  unfold entriesOf
  rw [List.map_filterMap]
  simp only [hread]
  rfl

/-- Rows with different keys come in a strict order. -/
theorem pairwise_entriesOf (h : (rows.map (·.contextPath)).Nodup) :
    (entriesOf rows).Pairwise fun a b => a.Precedes b ∧ a.key ≠ b.key := by
  have hkeys : (rows.mergeSort Tables.earlier).Pairwise
      fun a b => a.contextPath ≠ b.contextPath := by
    have hperm := (List.mergeSort_perm rows Tables.earlier).map (·.contextPath)
    exact List.pairwise_map.1 (hperm.nodup_iff.2 h)
  unfold entriesOf
  apply List.Pairwise.filterMap _ _ ((pairwise_mergeSort_earlier rows).and hkeys)
  intro a b hab e he e' he'
  obtain ⟨hkey, htime⟩ := key_of_entryOf? he
  obtain ⟨hkey', htime'⟩ := key_of_entryOf? he'
  unfold Entry.Precedes
  rw [hkey, hkey', htime, htime']
  refine ⟨?_, hab.2⟩
  rcases earlier_iff.1 hab.1 with hlt | ⟨heq, hle⟩
  · exact .inl hlt
  · exact .inr ⟨heq, Std.lt_of_le_of_ne hle hab.2⟩

theorem Collects.mem_entriesOf_iff (h : Collects requests rows) {e : Entry} :
    e ∈ entriesOf rows ↔ Stands requests e := by
  unfold entriesOf
  rw [List.mem_filterMap, stands_iff]
  apply exists_congr
  intro row
  rw [List.mem_mergeSort, h.mem_iff]

/-- On a database that was just made, whatever is saved, deleted and put there by others, loading
    gives the descriptors of the entries that stand: for each key the one that was stored last,
    unless it was deleted since or its text does not read. They come by the time of that
    deployment and then by key. Requests only fail for an invalid path, which changes nothing. -/
theorem loads_last_saved {blank db : Database} (hblank : blank.tables = .empty)
    (hmade : blank.makeTables = .ok db) (requests : List Request) :
    (∃ entries : List Entry,
        (db.afterAll requests).tables.loadDeployments = .ok (entries.map (·.descriptor)) ∧
          (∀ e, e ∈ entries ↔ Stands requests e) ∧ (entries.map (·.key)).Nodup ∧
          entries.Pairwise Entry.Precedes) ∧
      (∀ r : Request, r.key? ≠ none →
        (db.afterAll requests).change r.statement = .ok ((db.afterAll requests).after r)) ∧
      ∀ d id time e, ContextPath.parse d.contextPath = .error e →
        (db.afterAll requests).change (Request.save d id time).statement = .error (.host e) ∧
          (db.afterAll requests).after (.save d id time) = db.afterAll requests := by
  obtain ⟨hw, ht⟩ := Host.tables_of_makeTables hblank hmade
  have hempty : db.HoldsRows [] := ⟨hw, none, [], ht⟩
  obtain ⟨rows, hholds, hcollects⟩ := exists_collects hempty requests
  have hordered := pairwise_entriesOf hcollects.nodup
  refine ⟨⟨entriesOf rows, hholds.load, fun e => hcollects.mem_entriesOf_iff, ?_, ?_⟩, ?_, ?_⟩
  · exact List.pairwise_map.2 (hordered.imp And.right)
  · exact hordered.imp And.left
  · intro r hkey
    exact (hholds.change hkey).1
  · intro d id time e he
    exact change_of_invalid he id time _

/-- Two applications, one saved again in another spelling, deleted and saved with an earlier time,
    a save with an invalid path, and a row that does not read. -/
def mixedRequests : List Request :=
  [.save (.ofBase "/b" "b") ⟨1⟩ ⟨20, 0⟩, .save (.ofBase "/A/" "a") ⟨2⟩ ⟨10, 0⟩,
    .save (.ofBase "A b" "x") ⟨3⟩ ⟨30, 0⟩, .put ⟨"/bad", "x", "\x7b", "2000-01-01T00:00:00Z"⟩,
    .save (.ofBase " A" "a2") ⟨4⟩ ⟨40, 0⟩, .delete Sample.pathA,
    .save (.ofBase "/A" "a3") ⟨5⟩ ⟨5, 0⟩]

/-- The application that was deleted is there as it was saved since. -/
theorem loads_last_saved_mixed :
    Database.inMemory.tables = .empty ∧ Database.inMemory.makeTables = .ok Host.freshDatabase ∧
      ∃ entries : List Entry,
        (Host.freshDatabase.afterAll mixedRequests).tables.loadDeployments =
          .ok (entries.map (·.descriptor)) ∧ entries.Pairwise Entry.Precedes ∧
        ⟨"/A", "1970-01-01T00:00:05+00:00", .ofBase "/A" "a3"⟩ ∈ entries ∧
        ⟨"/b", "1970-01-01T00:00:20+00:00", .ofBase "/b" "b"⟩ ∈ entries := by
  have hblank : Database.inMemory.tables = .empty := rfl
  have hmade : Database.inMemory.makeTables = .ok Host.freshDatabase := rfl
  obtain ⟨⟨entries, hload, hstand, -, hordered⟩, -⟩ := loads_last_saved hblank hmade mixedRequests
  refine ⟨hblank, hmade, entries, hload, hordered, ?_, ?_⟩
  · apply (hstand _).2
    exact ⟨mixedRequests.take 6, _, [], rfl, by decide +kernel, by simp⟩
  · apply (hstand _).2
    exact ⟨[], _, mixedRequests.drop 1, rfl, by decide +kernel, by decide +kernel⟩

end Hosting.Database
