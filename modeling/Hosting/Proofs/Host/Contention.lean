import Hosting.Proofs.Host.Overlaps

/-! # Calls that contend for a path

    An undeployment takes the context and then, in sections of their own, the descriptor and
    the row. A deployment of the same path that comes in between finds the path free, and
    what the undeployment removes after that is not what it has taken. A deployment that
    stores its row after such an undeployment is stored for good.

    - `overlaps_finish`: once a call is past the tables in memory, it can return by itself.
    - `incoherent_of_taken`, `incoherent_of_free`: the two ways in which a deployment and an
      undeployment get past each other.
    - `coherent_iff_not_contended`: calls leave the tables coherent in every order of their
      sections exactly if they contend for no path.
    - `overlaps_not_coherent`: a deployment and an undeployment on a new host.
-/

namespace Hosting.Host

variable {h h' : Host} {path : ContextPath} {d : Descriptor} {c : Context} {s : Stage}
  {others : Multiset Stage} {rows : List DeploymentRow}

/-! ### Calls past the tables in memory -/

/-- The call changes neither of the tables in memory any more. -/
def Stage.IsLate : Stage → Prop
  | .read .. | .save .. | .reportDeployed _ | .delete .. | .reportUndeployed .. | .returned _ =>
    True
  | .register _ | .take _ | .forget .. => False

/-- The number of sections that a call can still go through. -/
def Stage.left : Stage → Nat
  | .register _ | .take _ => 4
  | .read .. | .forget .. => 3
  | .save .. | .delete .. => 2
  | .reportDeployed _ | .reportUndeployed .. => 1
  | .returned _ => 0

/-- Every section brings a call nearer to its end. -/
theorem left_advance (h : Host) (s : Stage) : (advance (h, s)).2.left ≤ s.left - 1 := by
  cases s <;> simp only [advance] <;> (try split) <;> simp [Stage.left]

theorem Stage.IsLate.advance (hlate : s.IsLate) (h : Host) :
    (Host.advance (h, s)).2.IsLate ∧ (Host.advance (h, s)).1.contexts = h.contexts ∧
      (Host.advance (h, s)).1.descriptors = h.descriptors := by
  -- a statement on the database changes the database only
  have hstatement {f : Tables → Except Failure Tables} {stored : Host}
      {answer : Except Failure Unit} (heq : h.onDatabase f = (stored, answer)) :
      stored.contexts = h.contexts ∧ stored.descriptors = h.descriptors := by
    obtain rfl : (h.onDatabase f).1 = stored := by rw [heq]
    exact ⟨contexts_onDatabase h f, descriptors_onDatabase h f⟩
  cases s with
  | read path d =>
    simp only [Host.advance]
    split <;> exact ⟨trivial, rfl, rfl⟩
  | save path d c | delete path c =>
    simp only [Host.advance]
    split
    · next heq => exact ⟨trivial, hstatement heq⟩
    · next heq => exact ⟨trivial, hstatement heq⟩
  | reportDeployed path | reportUndeployed path c =>
    exact ⟨trivial, contexts_record .., descriptors_record ..⟩
  | returned result => exact ⟨trivial, rfl, rfl⟩
  | register | take | forget => exact hlate.elim

theorem overlaps_finish {n : Nat} (hlate : s.IsLate) (hn : s.left ≤ n) (h : Host)
    (others : Multiset Stage) :
    ∃ h' result, Overlaps (h, s ::ₘ others) (h', .returned result ::ₘ others) ∧
      h'.contexts = h.contexts ∧ h'.descriptors = h.descriptors := by
  -- the sections that are left are counted down
  induction n generalizing h s with
  | zero =>
    cases s with
    | returned result => exact ⟨h, result, .refl, rfl, rfl⟩
    | _ => simp [Stage.left] at hn
  | succ n ih =>
    obtain ⟨hlate', hcontexts, hdescriptors⟩ := hlate.advance h
    have hless := left_advance h s
    obtain ⟨h', result, hrun, hsame, hsame'⟩ := ih hlate' (by omega) (advance (h, s)).1
    exact ⟨h', result, .head (.advance h s others) hrun, hsame.trans hcontexts,
      hsame'.trans hdescriptors⟩

/-- One section of one call, while the others wait. -/
theorem overlaps_section {s' : Stage} (hsection : advance (h, s) = (h', s'))
    (others : Multiset Stage) : Overlaps (h, s ::ₘ others) (h', s' ::ₘ others) := by
  have hstep := Overlap.advance h s others
  rw [hsection] at hstep
  exact .single hstep

/-- It does not matter which of two calls is named first. -/
theorem Overlaps.second {s s' t : Stage}
    (hrun : Overlaps (h, s ::ₘ t ::ₘ others) (h', s' ::ₘ t ::ₘ others)) :
    Overlaps (h, t ::ₘ s ::ₘ others) (h', t ::ₘ s' ::ₘ others) := by
  rw [Multiset.cons_swap t s, Multiset.cons_swap t s']
  exact hrun

/-! ### A deployment between the sections of an undeployment -/

/-- The undeployment of a path that is taken forgets the descriptor that a deployment has put in
    meanwhile. -/
theorem incoherent_of_taken (hparse : ContextPath.parse d.contextPath = .ok path)
    (htaken : h.contexts.get? path = some c) (others : Multiset Stage) :
    ∃ h' deployed undeployed,
      Overlaps (h, .register d ::ₘ .take path ::ₘ others)
        (h', .returned deployed ::ₘ .returned undeployed ::ₘ others) ∧ ¬ h'.Coherent := by
  let taken := h.removeContext path
  obtain ⟨new, -, hpath, hregister⟩ := register_of_free (h := taken) hparse
    (by simp [taken, removeContext])
  let registered := (taken.tick.insertContext new).insertDescriptor path d
  let forgotten := registered.removeDescriptor path
  have htake : Overlaps (h, .take path ::ₘ .register d ::ₘ others)
      (taken, .forget path c ::ₘ .register d ::ₘ others) :=
    overlaps_section (by simp only [advance, htaken, taken]) _
  have hput : Overlaps (taken, .register d ::ₘ .forget path c ::ₘ others)
      (registered, .read path d ::ₘ .forget path c ::ₘ others) :=
    overlaps_section (by simp only [advance, hregister, registered]) _
  have hforget : Overlaps (registered, .forget path c ::ₘ .read path d ::ₘ others)
      (forgotten, .delete path c ::ₘ .read path d ::ₘ others) :=
    .single (.advance registered (.forget path c) (.read path d ::ₘ others))
  -- what is left of the two calls does not mend the tables
  obtain ⟨left, undeployed, hend, hcontexts, hdescriptors⟩ := overlaps_finish
    (s := .delete path c) trivial (Nat.le_refl _) forgotten (.read path d ::ₘ others)
  obtain ⟨h', deployed, hend', hcontexts', hdescriptors'⟩ := overlaps_finish
    (s := .read path d) trivial (Nat.le_refl _) left (.returned undeployed ::ₘ others)
  refine ⟨h', deployed, undeployed, ?_, fun hcoherent => ?_⟩
  · calc Overlaps (h, .register d ::ₘ .take path ::ₘ others)
          (taken, .register d ::ₘ .forget path c ::ₘ others) := htake.second
      Overlaps _ (registered, .read path d ::ₘ .forget path c ::ₘ others) := hput
      Overlaps _ (forgotten, .read path d ::ₘ .delete path c ::ₘ others) := hforget.second
      Overlaps _ (left, .read path d ::ₘ .returned undeployed ::ₘ others) := hend.second
      Overlaps _ (h', .returned deployed ::ₘ .returned undeployed ::ₘ others) := hend'
  · -- the new context is there without a descriptor
    have hsame := hcoherent.same_paths path
    rw [hcontexts', hcontexts, hdescriptors', hdescriptors] at hsame
    simp [forgotten, registered, removeDescriptor, insertDescriptor, hpath] at hsame

/-- A deployment whose application was undeployed before it was stored is stored all the same. -/
theorem incoherent_of_free (hs : h.Stores rows)
    (hparse : ContextPath.parse d.contextPath = .ok path)
    (hfree : h.contexts.get? path = none) (others : Multiset Stage) :
    ∃ h' deployed undeployed,
      Overlaps (h, .register d ::ₘ .take path ::ₘ others)
        (h', .returned deployed ::ₘ .returned undeployed ::ₘ others) ∧ ¬ h'.Coherent := by
  obtain ⟨new, -, hpath, hregister⟩ := register_of_free hparse hfree
  let registered := (h.tick.insertContext new).insertDescriptor path d
  have hnew : registered.contexts.get? path = some new := by
    simp [registered, insertDescriptor, hpath]
  have hput : Overlaps (h, .register d ::ₘ .take path ::ₘ others)
      (registered, .read path d ::ₘ .take path ::ₘ others) :=
    overlaps_section (by simp only [advance, hregister, registered]) _
  have hread : Overlaps (registered, .read path d ::ₘ .take path ::ₘ others)
      (registered, .save path d new ::ₘ .take path ::ₘ others) :=
    overlaps_section (by simp only [advance, hnew]) _
  -- the undeployment finds the context, and runs to its end
  let undeployed := registered.result (.undeploy path)
  let gone := (registered.undeploy path).1
  have hun : Overlaps (registered, .take path ::ₘ .save path d new ::ₘ others)
      (gone, .returned undeployed ::ₘ .save path d new ::ₘ others) :=
    overlaps_call registered (.undeploy path) (.save path d new ::ₘ others)
  obtain ⟨rows', hrows', hnone⟩ : ∃ rows', gone.Stores rows' ∧
      gone.descriptors.get? path = none := by
    have hregistered : registered.Stores rows := hs.of_database_eq rfl
    rcases hregistered.undeploy_cases path with ⟨hmissing, -⟩ |
      ⟨_, removed, -, hstores, hsame, hok⟩
    · rw [hnew] at hmissing
      cases hmissing
    · simp only [gone, hok]
      refine ⟨_, hstores.record _ _ _, ?_⟩
      rw [descriptors_record, hsame.descriptors]
      simp [removeDescriptor]
  -- the deployment stores the context that it has found before
  let row : DeploymentRow := ⟨path.text, new.id.text, d.toText, new.deployedAt.text⟩
  obtain ⟨stored, hstored, hstores, hsame⟩ := hrows'.onDatabase
    (fun tables => tables.saveDeployment d new.id new.deployedAt)
    (rowsWithout rows' path ++ [row]) fun settings events => by
      unfold Tables.saveDeployment
      rw [hparse]
      rfl
  have hsave : Overlaps (gone, .save path d new ::ₘ .returned undeployed ::ₘ others)
      (stored, .reportDeployed path ::ₘ .returned undeployed ::ₘ others) :=
    overlaps_section (by simp only [advance, hstored]) _
  have hreport := Overlap.advance stored (.reportDeployed path) (.returned undeployed ::ₘ others)
  refine ⟨stored.record path "deployed" none, .deployed (.ok path), undeployed, ?_,
    fun hcoherent => ?_⟩
  · calc Overlaps (h, .register d ::ₘ .take path ::ₘ others)
          (registered, .read path d ::ₘ .take path ::ₘ others) := hput
      Overlaps _ (registered, .save path d new ::ₘ .take path ::ₘ others) := hread
      Overlaps _ (gone, .save path d new ::ₘ .returned undeployed ::ₘ others) := hun.second
      Overlaps _ (stored, .reportDeployed path ::ₘ .returned undeployed ::ₘ others) := hsave
      Overlaps _ (stored.record path "deployed" none,
          .returned (.deployed (.ok path)) ::ₘ .returned undeployed ::ₘ others) :=
        .single hreport
  · -- the row is there without a descriptor
    obtain ⟨rows'', hrows'', hmirrors⟩ := hcoherent.mirrored
    obtain rfl := hrows''.unique (hstores.record path "deployed" none)
    have hrow : row ∈ rowsWithout rows' path ++ [row] := by simp
    obtain ⟨p, e, hkey, hdescriptor, -⟩ := hmirrors.of_row hrow
    obtain rfl := ContextPath.ext_text hkey
    rw [descriptors_record, hsame.descriptors, hnone] at hdescriptor
    cases hdescriptor

/-! ### When calls leave the tables coherent -/

/-- A deployment and an undeployment of one path come to an end in which the tables do not agree,
    after all the other calls. -/
theorem exists_incoherent {calls : Multiset HostCall} (hm : h.Mirrored)
    (hcontended : Contended calls path) :
    ∃ h' stages, Overlaps (h, beginAll calls) (h', stages) ∧ (∀ s ∈ stages, s.HasReturned) ∧
      ¬ h'.Coherent := by
  obtain ⟨⟨d, hparse, hdeploy⟩, hundeploy⟩ := hcontended
  obtain ⟨rest, rfl⟩ := Multiset.exists_cons_of_mem hundeploy
  obtain ⟨rest, rfl⟩ := Multiset.exists_cons_of_mem
    ((Multiset.mem_cons.1 hdeploy).resolve_left (by simp))
  obtain ⟨list, rfl⟩ : ∃ list : List HostCall, (list : Multiset HostCall) = rest :=
    Quotient.exists_rep rest
  -- the other calls run before these two begin
  obtain ⟨done, hdone, hrun⟩ := overlaps_run h list (.register d ::ₘ .take path ::ₘ 0)
  rw [Multiset.add_cons, Multiset.add_cons, Multiset.add_zero, Multiset.add_cons,
    Multiset.add_cons, Multiset.add_zero] at hrun
  have hbegin : beginAll (.undeploy path ::ₘ .deploy d ::ₘ (list : Multiset HostCall)) =
      .register d ::ₘ .take path ::ₘ beginAll list := by
    rw [beginAll, beginAll, Multiset.map_cons, Multiset.map_cons, Multiset.cons_swap]
    rfl
  obtain ⟨h', deployed, undeployed, hend, hincoherent⟩ :
      ∃ h' deployed undeployed, Overlaps
        (h.performAll list, .register d ::ₘ .take path ::ₘ done)
        (h', .returned deployed ::ₘ .returned undeployed ::ₘ done) ∧ ¬ h'.Coherent := by
    cases hget : (h.performAll list).contexts.get? path with
    | none =>
      obtain ⟨rows, hs, -⟩ := hm.writes (writes_performAll h list)
      exact incoherent_of_free hs hparse hget done
    | some c => exact incoherent_of_taken hparse hget done
  refine ⟨h', .returned deployed ::ₘ .returned undeployed ::ₘ done, ?_, fun s hs => ?_,
    hincoherent⟩
  · rw [hbegin]
    exact hrun.trans hend
  · rcases Multiset.mem_cons.1 hs with rfl | hs
    · trivial
    · rcases Multiset.mem_cons.1 hs with rfl | hs
      · trivial
      · exact hdone s hs

/-- However the sections of calls are interleaved, the contexts, the descriptors and the stored
    deployments have the same paths and say the same once all calls have returned, exactly if
    no path is both deployed and undeployed by the calls. -/
theorem coherent_iff_not_contended (hk : h.Keyed) (hm : h.Mirrored)
    (calls : Multiset HostCall) :
    (∀ h' stages, Overlaps (h, beginAll calls) (h', stages) →
        (∀ s ∈ stages, s.HasReturned) → h'.Coherent) ↔
      ∀ path, ¬ Contended calls path := by
  constructor
  · intro hall path hcontended
    obtain ⟨h', stages, hrun, hdone, hincoherent⟩ := exists_incoherent hm hcontended
    exact hincoherent (hall h' stages hrun hdone)
  · exact fun hfair h' stages hrun hdone => coherent_of_overlaps hk hm hfair hrun hdone

theorem keyed_freshHost : freshHost.Keyed :=
  keyed_restore restore_freshHost

theorem mirrored_freshHost : freshHost.Mirrored :=
  mirrored_of_restore (rfl : Database.inMemory.tables = .empty) rfl restore_freshHost

/-- Two deployments of one path may overlap, and an undeployment of another path with them. -/
theorem coherent_iff_not_contended_fresh :
    freshHost.Keyed ∧ freshHost.Mirrored ∧ ∀ h' stages,
      Overlaps (freshHost, beginAll {.deploy (.ofBase "/A" "/srv/a"),
        .deploy (.ofBase "/A" "/srv/b"), .undeploy .root}) (h', stages) →
      (∀ s ∈ stages, s.HasReturned) → h'.Coherent := by
  refine ⟨keyed_freshHost, mirrored_freshHost,
    (coherent_iff_not_contended keyed_freshHost mirrored_freshHost _).2 ?_⟩
  rintro path ⟨⟨d, hparse, hdeploy⟩, hundeploy⟩
  obtain rfl : path = .root := by simpa using hundeploy
  have hd : d = .ofBase "/A" "/srv/a" ∨ d = .ofBase "/A" "/srv/b" := by simpa using hdeploy
  have hA : ContextPath.parse "/A" = .ok Sample.pathA := by rfl
  have hroot : ContextPath.parse d.contextPath = .ok Sample.pathA := by
    rcases hd with rfl | rfl <;> exact hA
  rw [hroot] at hparse
  exact absurd (Except.ok.inj hparse) (by decide)

/-- A deployment and an undeployment of one path may leave the tables in disagreement, also on a
    new host whose database does not fail. -/
theorem overlaps_not_coherent :
    ¬ ∀ (h : Host) (calls : Multiset HostCall) (h' : Host) (stages : Multiset Stage),
      h.Reachable → h.Mirrored → Overlaps (h, beginAll calls) (h', stages) →
      (∀ s ∈ stages, s.HasReturned) → h'.Coherent := by
  intro hall
  have hreach : freshHost.Reachable := ⟨freshHost, .restore restore_freshHost, .refl⟩
  have hcontended : Contended {.deploy (.ofBase "/A" "/srv/a"), .undeploy Sample.pathA}
      Sample.pathA :=
    ⟨⟨.ofBase "/A" "/srv/a", by rfl, by simp⟩, by simp⟩
  obtain ⟨h', stages, hrun, hdone, hincoherent⟩ :=
    exists_incoherent mirrored_freshHost hcontended
  exact hincoherent (hall freshHost _ h' stages hreach mirrored_freshHost hrun hdone)

end Hosting.Host
