import Hosting.Proofs.Host.Swaps

/-! # Deployments and undeployments that fail

    A deployment and an undeployment change the tables in memory first and the database after.
    They are refused before the first change, or the database fails them in between. Nothing is
    taken back then: the database is as it was, and the tables in memory are not.

    - `deploy_error`, `undeploy_error`: the two ways in which each of them fails.
    - `Untouched`: the tables and the database are what they were.
    - `untouched_iff_refused`: a failed operation leaves them so exactly where the host has
      refused it itself.
    - `failure_not_untouched`: a database that is only read.
-/

namespace Hosting

/-- A statement that is not carried out is wrong itself, or the database is only read. -/
theorem Database.change_error {db : Database} {f : Tables → Except Failure Tables} {e : Failure}
    (he : db.change f = .error e) : f db.tables = .error e ∨ e = .database .readOnly := by
  unfold change at he
  split at he
  · next failed hf =>
    obtain rfl := Except.error.inj he
    exact .inl hf
  · split at he
    · cases he
    · exact .inr (Except.error.inj he).symm

/-- Where the path of a descriptor reads, only a missing table keeps its row out. -/
theorem Tables.saveDeployment_error {t : Tables} {d : Descriptor} {id : DeploymentId}
    {time : Instant} {path : ContextPath} {e : Failure}
    (hparse : ContextPath.parse d.contextPath = .ok path)
    (he : t.saveDeployment d id time = .error e) : ∃ fault, e = .database fault := by
  unfold saveDeployment putDeployment onTable at he
  rw [hparse] at he
  simp only at he
  split at he
  · exact ⟨_, (Except.error.inj he).symm⟩
  · cases he

theorem Tables.deleteDeployment_error {t : Tables} {path : ContextPath} {e : Failure}
    (he : t.deleteDeployment path = .error e) : ∃ fault, e = .database fault := by
  unfold deleteDeployment onTable at he
  split at he
  · exact ⟨_, (Except.error.inj he).symm⟩
  · cases he

namespace Host

variable {h h' : Host}

/-! ### How the operations fail -/

/-- A statement that fails leaves the host as it is. -/
theorem onDatabase_error {f : Tables → Except Failure Tables} {e : Failure}
    (he : (h.onDatabase f).2 = .error e) :
    (h.onDatabase f).1 = h ∧ ∃ db, h.database = some db ∧ db.change f = .error e := by
  unfold onDatabase at he ⊢
  split
  · next hdb =>
    rw [hdb] at he
    cases he
  · next db hdb =>
    rw [hdb] at he
    simp only at he
    split at he
    · next failed hchange =>
      obtain rfl := Except.error.inj he
      exact ⟨rfl, db, hdb, hchange⟩
    · cases he

/-- A deployment is refused, or the new context is registered and the database fails to store
    it. -/
theorem deploy_error {d : Descriptor} {e : Failure} (he : (h.deploy d).2 = .error e) :
    (∃ cause, e = .host cause ∧ (h.deploy d).1 = h.tick) ∨
      ∃ c fault, Context.ofDescriptor h.supply.id h.supply.now d = .ok c ∧
        h.contexts.get? c.path = none ∧ e = .database fault ∧
        (h.deploy d).1 = (h.tick.insertContext c).insertDescriptor c.path d := by
  unfold deploy at he ⊢
  rcases register_cases h d with ⟨cause, hr⟩ | ⟨c, hc, hfree, hr⟩
  · rw [hr] at he ⊢
    obtain rfl := Except.error.inj he
    exact .inl ⟨cause, rfl, rfl⟩
  · let registered := (h.tick.insertContext c).insertDescriptor c.path d
    have hstore : registered.storeDeployment c.path d =
        registered.onDatabase fun tables => tables.saveDeployment d c.id c.deployedAt := by
      have hget : registered.contexts.get? c.path = some c := by
        show (h.tick.insertContext c).contexts.get? c.path = some c
        simp
      unfold storeDeployment
      rw [hget]
    rw [hr] at he ⊢
    simp only [registered] at hstore
    simp only [hstore] at he ⊢
    split at he
    · next left failed hfailed =>
      obtain rfl := Except.error.inj he
      obtain ⟨hsame, db, -, hchange⟩ := onDatabase_error (by rw [hfailed])
      rw [hfailed] at hsame
      refine .inr ⟨c, ?_⟩
      rcases Database.change_error hchange with hstatement | hreadOnly
      · obtain ⟨fault, hfault⟩ :=
          Tables.saveDeployment_error (Context.ofDescriptor_spec hc).1 hstatement
        exact ⟨fault, hc, hfree, hfault, hsame⟩
      · exact ⟨.readOnly, hc, hfree, hreadOnly, hsame⟩
    · cases he

/-- An undeployment is refused, or the path is taken out and the database fails to forget it. -/
theorem undeploy_error {path : ContextPath} {e : Failure} (he : (h.undeploy path).2 = .error e) :
    (∃ cause, e = .host cause ∧ (h.undeploy path).1 = h) ∨
      ∃ c fault, h.contexts.get? path = some c ∧ e = .database fault ∧
        (h.undeploy path).1 = (h.removeContext path).removeDescriptor path := by
  unfold undeploy at he ⊢
  split at he
  · next hnone =>
    obtain rfl := Except.error.inj he
    exact .inl ⟨_, rfl, rfl⟩
  · next c hc =>
    split at he
    · next left failed hfailed =>
      obtain rfl := Except.error.inj he
      obtain ⟨hsame, db, -, hchange⟩ := onDatabase_error (by rw [hfailed])
      rw [hfailed] at hsame
      refine .inr ⟨c, ?_⟩
      rcases Database.change_error hchange with hstatement | hreadOnly
      · obtain ⟨fault, hfault⟩ := Tables.deleteDeployment_error hstatement
        exact ⟨fault, hc, hfault, hsame⟩
      · exact ⟨.readOnly, hc, hreadOnly, hsame⟩
    · cases he

/-! ### What they leave -/

/-- The answer of a registration depends on the paths that are taken only. -/
theorem answer_register (h : Host) (d : Descriptor) :
    (h.register d).2 = match ContextPath.parse d.contextPath with
      | .error e => .error e
      | .ok path =>
        if h.contexts.contains path = true then .error (.duplicateContext path.text)
        else .ok path := by
  rcases register_spec h d with ⟨e, hparse, hr⟩ | ⟨path, hparse, htaken, hr⟩ | ⟨c, hc, hfree, hr⟩
  · rw [hr, hparse]
  · rw [hr, hparse]
    simp only [htaken, if_true]
  · rw [hr, (Context.ofDescriptor_spec hc).1]
    simp only [hfree, Bool.false_eq_true, if_false]

theorem deploy_of_refused {d : Descriptor} {cause : HostError}
    (hr : (h.register d).2 = .error cause) : (h.deploy d).2 = .error (.host cause) := by
  unfold deploy
  cases hboth : h.register d with
  | mk left answer =>
    rw [hboth] at hr
    obtain rfl : answer = .error cause := hr
    rfl

/-- The tables in memory and the database are what they were. -/
structure Untouched (h h' : Host) : Prop where
  contexts : h'.contexts = h.contexts
  descriptors : h'.descriptors = h.descriptors
  database : h'.database = h.database

/-- What a failed deployment leaves. -/
structure DeployFails (h h' : Host) (d : Descriptor) (e : Failure) : Prop where
  database : h'.database = h.database
  untouched_iff : h.Untouched h' ↔ ∃ cause, e = .host cause
  /-- After a refusal, every deployment is refused for the same reason as before it. -/
  refused : (∃ cause, e = .host cause) → ∀ d', (h'.register d').2 = (h.register d').2
  /-- After a failure of the database, the path is taken by the application that was not stored. -/
  failed : (∃ fault, e = .database fault) → ∃ path,
    ContextPath.parse d.contextPath = .ok path ∧ h.contexts.contains path = false ∧
      (h'.deploy d).2 = .error (.host (.duplicateContext path.text))

/-- What a failed undeployment leaves. -/
structure UndeployFails (h h' : Host) (path : ContextPath) (e : Failure) : Prop where
  database : h'.database = h.database
  untouched_iff : h.Untouched h' ↔ ∃ cause, e = .host cause
  /-- After a failure of the database, the application is gone from the host alone. -/
  failed : (∃ fault, e = .database fault) → h.contexts.contains path = true ∧
    (h'.undeploy path).2 = .error (.host (.noSuchContext path.text))

theorem deployFails {d : Descriptor} {e : Failure} (he : (h.deploy d).2 = .error e) :
    DeployFails h (h.deploy d).1 d e := by
  rcases deploy_error he with ⟨cause, rfl, hsame⟩ | ⟨c, fault, hc, hfree, rfl, hput⟩
  · have hu : h.Untouched (h.deploy d).1 := by
      rw [hsame]
      exact ⟨rfl, rfl, rfl⟩
    refine ⟨hu.database, iff_of_true hu ⟨cause, rfl⟩, fun _ d' => ?_, fun ⟨_, hfault⟩ => ?_⟩
    · rw [answer_register, answer_register, hu.contexts]
    · cases hfault
  · have hparse := (Context.ofDescriptor_spec hc).1
    have hin : (h.deploy d).1.contexts.get? c.path = some c := by
      rw [hput]
      show (h.tick.insertContext c).contexts.get? c.path = some c
      simp
    refine ⟨by rw [hput]; rfl, iff_of_false (fun hu => ?_) (by simp), fun ⟨_, hcause⟩ => ?_,
      fun _ => ⟨c.path, hparse, ?_, deploy_of_refused ?_⟩⟩
    · -- the path was free, and it is not any more
      rw [hu.contexts, hfree] at hin
      cases hin
    · cases hcause
    · unfold PathTable.contains
      rw [hfree]
      rfl
    · rw [answer_register, hparse]
      simp only [PathTable.contains, hin, Option.isSome_some, if_true]

theorem undeployFails {path : ContextPath} {e : Failure} (he : (h.undeploy path).2 = .error e) :
    UndeployFails h (h.undeploy path).1 path e := by
  rcases undeploy_error he with ⟨cause, rfl, hsame⟩ | ⟨c, fault, hc, rfl, htaken⟩
  · rw [hsame]
    exact ⟨rfl, iff_of_true ⟨rfl, rfl, rfl⟩ ⟨cause, rfl⟩, fun ⟨_, hfault⟩ => by cases hfault⟩
  · have hout : (h.undeploy path).1.contexts.get? path = none := by
      rw [htaken]
      show (h.contexts.erase path).get? path = none
      simp
    refine ⟨by rw [htaken]; rfl, iff_of_false (fun hu => ?_) (by simp), fun _ => ⟨?_, ?_⟩⟩
    · rw [hu.contexts, hc] at hout
      cases hout
    · unfold PathTable.contains
      rw [hc]
      rfl
    · generalize (h.undeploy path).1 = left at hout
      unfold undeploy
      rw [hout]

/-- Whatever the database does, a deployment or an undeployment that fails leaves the database as it
    was. It leaves the tables in memory as they were exactly where the host has refused it
    itself, for its path. Where the database has failed it, the application that could not be
    stored stays registered, and the one that could not be removed is gone. -/
theorem untouched_iff_refused (h : Host) :
    (∀ d e, (h.deploy d).2 = .error e → DeployFails h (h.deploy d).1 d e) ∧
      ∀ path e, (h.undeploy path).2 = .error e → UndeployFails h (h.undeploy path).1 path e :=
  ⟨fun _ _ he => deployFails he, fun _ _ he => undeployFails he⟩

/-- An application cannot be deployed twice, nor one undeployed that is not there, and trying to
    changes nothing. -/
theorem untouched_iff_refused_occupied :
    (occupiedHost.deploy (.ofBase "/A" "/srv/a")).2 =
        .error (.host (.duplicateContext "/A")) ∧
      occupiedHost.Untouched (occupiedHost.deploy (.ofBase "/A" "/srv/a")).1 ∧
      (occupiedHost.undeploy .root).2 = .error (.host (.noSuchContext "/")) ∧
      occupiedHost.Untouched (occupiedHost.undeploy .root).1 := by
  have hdeploy : (occupiedHost.deploy (.ofBase "/A" "/srv/a")).2 =
      .error (.host (.duplicateContext "/A")) := by
    rfl
  have hundeploy : (occupiedHost.undeploy .root).2 = .error (.host (.noSuchContext "/")) := by
    rfl
  obtain ⟨hdeploys, hundeploys⟩ := untouched_iff_refused occupiedHost
  exact ⟨hdeploy, (hdeploys _ _ hdeploy).untouched_iff.2 ⟨_, rfl⟩,
    hundeploy, (hundeploys _ _ hundeploy).untouched_iff.2 ⟨_, rfl⟩⟩

/-! ### A database that is only read -/

/-- A host on a database that does not accept changes. -/
def readOnlyHost : Host :=
  { ofSettings .default restless ⟨0, 0⟩ with
    database := some { freshDatabase with writable := false } }

theorem reachable_readOnlyHost : readOnlyHost.Reachable :=
  ⟨readOnlyHost, .restore (restore_of_noRows rfl restless ⟨0, 0⟩), .refl⟩

/-- The same host after a deployment that has failed. -/
def unstoredHost : Host :=
  (readOnlyHost.deploy (.ofBase "/A" "/srv/a")).1

/-- The application is registered all the same, and gone after an undeployment that fails too. -/
theorem failure_not_untouched :
    readOnlyHost.Reachable ∧ unstoredHost.Reachable ∧
      (readOnlyHost.deploy (.ofBase "/A" "/srv/a")).2 = .error (.database .readOnly) ∧
      ¬ readOnlyHost.Untouched unstoredHost ∧
      (unstoredHost.deploy (.ofBase "/A" "/srv/a")).2 =
        .error (.host (.duplicateContext "/A")) ∧
      (unstoredHost.undeploy Sample.pathA).2 = .error (.database .readOnly) ∧
      ¬ unstoredHost.Untouched (unstoredHost.undeploy Sample.pathA).1 := by
  have hfree : readOnlyHost.contexts.contains Sample.pathA = false := by
    rfl
  have htaken : unstoredHost.contexts.contains Sample.pathA = true := by
    rfl
  have hgone : (unstoredHost.undeploy Sample.pathA).1.contexts.contains Sample.pathA = false := by
    rfl
  refine ⟨reachable_readOnlyHost, reachable_readOnlyHost.step (.deploy _ _), rfl, fun hu => ?_,
    rfl, rfl, fun hu => ?_⟩
  · rw [hu.contexts, hfree] at htaken
    cases htaken
  · rw [hu.contexts, htaken] at hgone
    cases hgone

end Host

end Hosting
