import Hosting.Proofs.Host.Sections

/-! # Calls that do not contend

    While a call is between its sections, the tables disagree about its path. They agree
    about every other path, and no second call gets between the sections on the same one:
    a second deployment finds the path taken, and a second undeployment finds it free.
    Only a deployment and an undeployment of one path get past each other.

    - `Contended`: the calls both deploy and undeploy a path.
    - `Courses`: what holds between sections, as long as no path is contended.
    - `Courses.advance`, `coherent_of_overlaps`: one section keeps it, and so does every run.
-/

namespace Hosting.Host

variable {h h' : Host} {rows rows' : List DeploymentRow} {p path : ContextPath} {s s' : Stage}
  {others : Multiset Stage} {calls : Multiset HostCall}

/-! ### One path -/

/-- Both hosts, with their rows, say the same about a path. -/
structure AlikeAt (h : Host) (rows : List DeploymentRow) (h' : Host) (rows' : List DeploymentRow)
    (p : ContextPath) : Prop where
  contexts : h'.contexts.get? p = h.contexts.get? p
  descriptors : h'.descriptors.get? p = h.descriptors.get? p
  rows (row : DeploymentRow) : row.contextPath = p.text → (row ∈ rows' ↔ row ∈ rows)

theorem AlikeAt.of_tables_eq (hcontexts : h'.contexts = h.contexts)
    (hdescriptors : h'.descriptors = h.descriptors) : AlikeAt h rows h' rows p :=
  ⟨by rw [hcontexts], by rw [hdescriptors], fun _ _ => Iff.rfl⟩

/-- The context, the descriptor and the row of a path agree. -/
structure CoherentAt (h : Host) (rows : List DeploymentRow) (p : ContextPath) : Prop where
  same_paths : (h.contexts.get? p).isSome = (h.descriptors.get? p).isSome
  of_row {row : DeploymentRow} : row ∈ rows → row.contextPath = p.text →
    ∃ d, h.descriptors.get? p = some d ∧ Descriptor.ofText row.descriptor = .ok d
  of_descriptor {d : Descriptor} : h.descriptors.get? p = some d →
    ∃ row ∈ rows, row.contextPath = p.text

theorem CoherentAt.of_alikeAt (hc : CoherentAt h rows p) (hsame : AlikeAt h rows h' rows' p) :
    CoherentAt h' rows' p := by
  refine ⟨?_, fun hrow hkey => ?_, fun hd => ?_⟩
  · rw [hsame.contexts, hsame.descriptors]
    exact hc.same_paths
  · rw [hsame.descriptors]
    exact hc.of_row ((hsame.rows _ hkey).1 hrow) hkey
  · rw [hsame.descriptors] at hd
    obtain ⟨row, hrow, hkey⟩ := hc.of_descriptor hd
    exact ⟨row, (hsame.rows row hkey).2 hrow, hkey⟩

/-- A path without a context has no descriptor and no row. -/
theorem CoherentAt.free (hc : CoherentAt h rows p) (hfree : h.contexts.get? p = none) :
    h.descriptors.get? p = none ∧ ∀ row ∈ rows, row.contextPath ≠ p.text := by
  have hsame := hc.same_paths
  rw [hfree] at hsame
  have hnone : h.descriptors.get? p = none := Option.isNone_iff_eq_none.1 (by
    rw [← Option.not_isSome, ← hsame]
    rfl)
  refine ⟨hnone, fun row hrow hkey => ?_⟩
  obtain ⟨d, hd, -⟩ := hc.of_row hrow hkey
  rw [hnone] at hd
  cases hd

theorem coherentAt_of_mirrors (hk : h.Keyed) (hm : h.Mirrors rows) (p : ContextPath) :
    CoherentAt h rows p := by
  refine ⟨hk.same_paths p, fun hrow hkey => ?_, hm.of_descriptor⟩
  obtain ⟨q, d, hkey', hd, hread⟩ := hm.of_row hrow
  obtain rfl := ContextPath.ext_text (hkey.symm.trans hkey')
  exact ⟨d, hd, hread⟩

/-! ### Calls between their sections -/

/-- The path that a call has changed in some of the tables and not in all. -/
def Stage.midway : Stage → Option ContextPath
  | .read path _ | .save path _ _ | .forget path _ | .delete path _ => some path
  | _ => none

/-- What a call has made of its path so far. -/
def Stage.Holds (h : Host) (rows : List DeploymentRow) : Stage → Prop
  | .read path d | .save path d _ =>
    ContextPath.parse d.contextPath = .ok path ∧ (h.contexts.get? path).isSome = true ∧
      h.descriptors.get? path = some d ∧ ∀ row ∈ rows, row.contextPath ≠ path.text
  | .forget path _ => h.contexts.get? path = none
  | .delete path _ => h.contexts.get? path = none ∧ h.descriptors.get? path = none
  | _ => True

theorem Stage.Holds.of_alikeAt (hs : s.Holds h rows)
    (hsame : ∀ p, s.midway = some p → AlikeAt h rows h' rows' p) : s.Holds h' rows' := by
  have hrows {path : ContextPath} (hmid : s.midway = some path)
      (hnone : ∀ row ∈ rows, row.contextPath ≠ path.text) :
      ∀ row ∈ rows', row.contextPath ≠ path.text := fun row hrow hkey =>
    hnone row (((hsame path hmid).rows row hkey).1 hrow) hkey
  cases s with
  | read path d | save path d c =>
    obtain ⟨hparse, hcontext, hdescriptor, hnone⟩ := hs
    have hat := hsame path rfl
    exact ⟨hparse, by rw [hat.contexts]; exact hcontext,
      by rw [hat.descriptors]; exact hdescriptor, hrows rfl hnone⟩
  | forget path c => exact (hsame path rfl).contexts.trans hs
  | delete path c =>
    exact ⟨(hsame path rfl).contexts.trans hs.1, (hsame path rfl).descriptors.trans hs.2⟩
  | register | reportDeployed | take | reportUndeployed | returned => trivial

/-- The call that is under way, until all tables are changed. -/
def Stage.call? : Stage → Option HostCall
  | .register d | .read _ d | .save _ d _ => some (.deploy d)
  | .take path | .forget path _ | .delete path _ => some (.undeploy path)
  | _ => none

/-- The calls deploy to a path and undeploy it. -/
def Contended (calls : Multiset HostCall) (path : ContextPath) : Prop :=
  (∃ d, ContextPath.parse d.contextPath = .ok path ∧ HostCall.deploy d ∈ calls) ∧
    HostCall.undeploy path ∈ calls

/-- What holds while calls go on that do not contend for any path. -/
structure Courses (calls : Multiset HostCall) (h : Host) (stages : Multiset Stage)
    (rows : List DeploymentRow) : Prop where
  stores : h.Stores rows
  nodup : (rows.map (·.contextPath)).Nodup
  row_path {row : DeploymentRow} : row ∈ rows → ∃ p : ContextPath, row.contextPath = p.text
  of_calls {s : Stage} {call : HostCall} : s ∈ stages → s.call? = some call → call ∈ calls
  /-- No path is left in between by two calls. -/
  single : (stages.filterMap Stage.midway).Nodup
  holds {s : Stage} : s ∈ stages → s.Holds h rows
  /-- A path that no call has left in between is coherent. -/
  coherent (p : ContextPath) : (∀ s ∈ stages, s.midway ≠ some p) → CoherentAt h rows p

namespace Courses

theorem begin (hk : h.Keyed) (hm : h.Mirrored) (calls : Multiset HostCall) :
    ∃ rows, Courses calls h (beginAll calls) rows := by
  obtain ⟨rows, hs, hm⟩ := hm
  have hmem {s : Stage} (hs : s ∈ beginAll calls) : ∃ call ∈ calls, Stage.begin call = s :=
    Multiset.mem_map.1 hs
  have hnone : (beginAll calls).filterMap Stage.midway = 0 := by
    refine Multiset.eq_zero_of_forall_notMem fun p hp => ?_
    obtain ⟨s, hs, hmid⟩ := (Multiset.mem_filterMap _ _).1 hp
    obtain ⟨call, -, rfl⟩ := hmem hs
    cases call <;> cases hmid
  refine ⟨rows, hs, hm.nodup, fun hrow => ?_, fun hs hcall => ?_, by rw [hnone]; simp,
    fun hs => ?_, fun p _ => coherentAt_of_mirrors hk hm p⟩
  · obtain ⟨p, -, hkey, -⟩ := hm.of_row hrow
    exact ⟨p, hkey⟩
  · obtain ⟨call', hin, rfl⟩ := hmem hs
    cases call' <;> cases hcall <;> exact hin
  · obtain ⟨call, -, rfl⟩ := hmem hs
    cases call <;> trivial

/-- Where no call is under way any more, all three tables agree. -/
theorem finished {stages : Multiset Stage} (hc : Courses calls h stages rows)
    (hdone : ∀ s ∈ stages, s.HasReturned) : h.Coherent := by
  have hat (p : ContextPath) : CoherentAt h rows p := by
    refine hc.coherent p fun s hs hmid => ?_
    have hreturned := hdone s hs
    cases s <;> first | exact hreturned | cases hmid
  refine ⟨fun p => (hat p).same_paths, rows, hc.stores, hc.nodup, fun hrow => ?_,
    fun hd => (hat _).of_descriptor hd⟩
  obtain ⟨p, hkey⟩ := hc.row_path hrow
  obtain ⟨d, hd, hread⟩ := (hat p).of_row hrow hkey
  exact ⟨p, d, hkey, hd, hread⟩

/-! ### One section -/

/-- Two calls are not in between on one path. -/
theorem ne_midway (hc : Courses calls h (s ::ₘ others) rows) (hs : s.midway = some path) :
    ∀ t ∈ others, t.midway ≠ some path := by
  intro t ht hmid
  have hsingle := hc.single
  rw [Multiset.filterMap_cons_some _ _ _ hs, Multiset.nodup_cons] at hsingle
  exact hsingle.1 ((Multiset.mem_filterMap _ _).2 ⟨t, ht, hmid⟩)

/-- After a section, what is under way is still of the calls. -/
theorem of_calls_cons {t : Stage} {call : HostCall} (hc : Courses calls h (s ::ₘ others) rows)
    (hcall : ∀ call, s'.call? = some call → s.call? = some call) (ht : t ∈ s' ::ₘ others)
    (htcall : t.call? = some call) : call ∈ calls := by
  rcases Multiset.mem_cons.1 ht with rfl | ht
  · exact hc.of_calls (Multiset.mem_cons_self ..) (hcall call htcall)
  · exact hc.of_calls (Multiset.mem_cons_of_mem ht) htcall

/-- A section that leaves the tables alone, and its call where it was. -/
theorem stay (hc : Courses calls h (s ::ₘ others) rows) (hs : h'.Stores rows)
    (hcontexts : h'.contexts = h.contexts) (hdescriptors : h'.descriptors = h.descriptors)
    (hcall : ∀ call, s'.call? = some call → s.call? = some call)
    (hmid : s'.midway = s.midway) (hholds : s'.Holds h' rows) :
    Courses calls h' (s' ::ₘ others) rows := by
  have hsame (p : ContextPath) : AlikeAt h rows h' rows p :=
    .of_tables_eq hcontexts hdescriptors
  refine ⟨hs, hc.nodup, hc.row_path, fun ht htcall => hc.of_calls_cons hcall ht htcall, ?_,
    fun {t} ht => ?_, fun p hp => ?_⟩
  · have hsingle := hc.single
    cases hsmid : s.midway with
    | none =>
      rw [Multiset.filterMap_cons_none _ _ hsmid] at hsingle
      rwa [Multiset.filterMap_cons_none _ _ (hmid.trans hsmid)]
    | some q =>
      rw [Multiset.filterMap_cons_some _ _ _ hsmid] at hsingle
      rwa [Multiset.filterMap_cons_some _ _ _ (hmid.trans hsmid)]
  · rcases Multiset.mem_cons.1 ht with rfl | ht
    · exact hholds
    · exact (hc.holds (Multiset.mem_cons_of_mem ht)).of_alikeAt fun p _ => hsame p
  · refine (hc.coherent p fun t ht => ?_).of_alikeAt (hsame p)
    rcases Multiset.mem_cons.1 ht with rfl | ht
    · rw [← hmid]
      exact hp s' (Multiset.mem_cons_self ..)
    · exact hp t (Multiset.mem_cons_of_mem ht)

/-- A section that changes the tables for one path, on which no other call is in between. -/
theorem change (path : ContextPath) (hc : Courses calls h (s ::ₘ others) rows)
    (hs : h'.Stores rows')
    (hnodup : (rows'.map (·.contextPath)).Nodup)
    (hrow : ∀ row ∈ rows', row ∈ rows ∨ row.contextPath = path.text)
    (hcall : ∀ call, s'.call? = some call → s.call? = some call)
    (hsame : ∀ p, p ≠ path → AlikeAt h rows h' rows' p)
    (hfree : ∀ t ∈ others, t.midway ≠ some path)
    (hmid : s.midway = none ∨ s.midway = some path)
    (hmid' : s'.midway = none ∧ CoherentAt h' rows' path ∨ s'.midway = some path)
    (hholds : s'.Holds h' rows') : Courses calls h' (s' ::ₘ others) rows' := by
  have hothers : (others.filterMap Stage.midway).Nodup := by
    refine Multiset.nodup_of_le ?_ hc.single
    exact Multiset.filterMap_le_filterMap _ (Multiset.le_cons_self ..)
  refine ⟨hs, hnodup, fun {row} hin => ?_,
    fun ht htcall => hc.of_calls_cons hcall ht htcall, ?_, fun {t} ht => ?_, fun p hp => ?_⟩
  · rcases hrow row hin with hold | hnew
    · exact hc.row_path hold
    · exact ⟨path, hnew⟩
  · rcases hmid' with ⟨hnone, -⟩ | hsome
    · rwa [Multiset.filterMap_cons_none _ _ hnone]
    · rw [Multiset.filterMap_cons_some _ _ _ hsome, Multiset.nodup_cons]
      refine ⟨fun hin => ?_, hothers⟩
      obtain ⟨t, ht, htmid⟩ := (Multiset.mem_filterMap _ _).1 hin
      exact hfree t ht htmid
  · rcases Multiset.mem_cons.1 ht with rfl | ht
    · exact hholds
    · refine (hc.holds (Multiset.mem_cons_of_mem ht)).of_alikeAt fun p hp => hsame p ?_
      rintro rfl
      exact hfree t ht hp
  · by_cases hpath : p = path
    · subst hpath
      rcases hmid' with ⟨-, hat⟩ | hsome
      · exact hat
      · exact absurd hsome (hp s' (Multiset.mem_cons_self ..))
    · refine (hc.coherent p fun t ht => ?_).of_alikeAt (hsame p hpath)
      rcases Multiset.mem_cons.1 ht with rfl | ht
      · rcases hmid with hnone | hsome
        · simp [hnone]
        · rw [hsome]
          simpa using Ne.symm hpath
      · exact hp t (Multiset.mem_cons_of_mem ht)

/-- A deployment in between has a context for its path, and an undeployment has none. -/
theorem midway_cases {t : Stage} {stages : Multiset Stage} (hc : Courses calls h stages rows)
    (ht : t ∈ stages) (hmid : t.midway = some path) :
    (∃ d, ContextPath.parse d.contextPath = .ok path ∧ HostCall.deploy d ∈ calls ∧
        (h.contexts.get? path).isSome = true) ∨
      HostCall.undeploy path ∈ calls ∧ h.contexts.get? path = none := by
  have hholds := hc.holds ht
  cases t with
  | read q d | save q d c =>
    obtain rfl := Option.some.inj hmid
    exact .inl ⟨d, hholds.1, hc.of_calls ht rfl, hholds.2.1⟩
  | forget q c =>
    obtain rfl := Option.some.inj hmid
    exact .inr ⟨hc.of_calls ht rfl, hholds⟩
  | delete q c =>
    obtain rfl := Option.some.inj hmid
    exact .inr ⟨hc.of_calls ht rfl, hholds.1⟩
  | register | reportDeployed | take | reportUndeployed | returned => cases hmid

/-- A deployment that registers, or an undeployment that takes, finds no other call in between on
    its path. -/
theorem free_of_midway {call : HostCall} (hfair : ∀ path, ¬ Contended calls path)
    (hc : Courses calls h (s ::ₘ others) rows) (hcall : s.call? = some call)
    (hbegins : (∃ d, call = .deploy d ∧ ContextPath.parse d.contextPath = .ok path ∧
        h.contexts.get? path = none) ∨
      call = .undeploy path ∧ (h.contexts.get? path).isSome = true) :
    ∀ t ∈ others, t.midway ≠ some path := by
  intro t ht hmid
  have hin : call ∈ calls := hc.of_calls (Multiset.mem_cons_self ..) hcall
  rcases hbegins with ⟨d, rfl, hparse, hfree⟩ | ⟨rfl, htaken⟩
  · rcases hc.midway_cases (Multiset.mem_cons_of_mem ht) hmid with ⟨_, -, -, htaken⟩ | ⟨hun, -⟩
    · simp [hfree] at htaken
    · exact hfair path ⟨⟨d, hparse, hin⟩, hun⟩
  · rcases hc.midway_cases (Multiset.mem_cons_of_mem ht) hmid with ⟨d, hparse, hdep, -⟩ |
      ⟨-, hfree⟩
    · exact hfair path ⟨⟨d, hparse, hdep⟩, hin⟩
    · simp [hfree] at htaken

theorem register {d : Descriptor} (hfair : ∀ path, ¬ Contended calls path)
    (hc : Courses calls h (.register d ::ₘ others) rows) :
    Courses calls (Host.advance (h, .register d)).1
      ((Host.advance (h, .register d)).2 ::ₘ others) rows := by
  rcases register_cases h d with ⟨e, he⟩ | ⟨c, hnew, hfree, hok⟩
  · simp only [Host.advance, he]
    exact hc.stay (hc.stores.of_database_eq rfl) rfl rfl (by simp [Stage.call?]) rfl trivial
  · have hparse := (Context.ofDescriptor_spec hnew).1
    have hothers := free_of_midway hfair hc rfl (.inl ⟨d, rfl, hparse, hfree⟩)
    have hat : CoherentAt h rows c.path := hc.coherent c.path fun t ht => by
      rcases Multiset.mem_cons.1 ht with rfl | ht
      · simp [Stage.midway]
      · exact hothers t ht
    -- the path was coherent and free, so there is no row for it yet
    obtain ⟨-, hnone⟩ := hat.free hfree
    simp only [Host.advance, hok]
    refine hc.change c.path (hc.stores.of_database_eq rfl) hc.nodup
      (fun row hrow => .inl hrow) (by simp [Stage.call?])
      (fun p hp => ⟨?_, ?_, fun _ _ => Iff.rfl⟩) hothers (.inl rfl) (.inr rfl)
      ⟨hparse, ?_, ?_, hnone⟩
    · simp [insertDescriptor, hp, tick]
    · simp [insertDescriptor, hp, tick]
    · simp [insertDescriptor]
    · simp [insertDescriptor]

theorem save {d : Descriptor} {c : Context}
    (hc : Courses calls h (.save path d c ::ₘ others) rows) :
    ∃ rows', Courses calls (Host.advance (h, .save path d c)).1
      ((Host.advance (h, .save path d c)).2 ::ₘ others) rows' := by
  obtain ⟨hparse, htaken, hd, -⟩ := hc.holds (Multiset.mem_cons_self ..)
  let row : DeploymentRow := ⟨path.text, c.id.text, d.toText, c.deployedAt.text⟩
  obtain ⟨stored, hstored, hs, hsame⟩ := hc.stores.onDatabase
    (fun tables => tables.saveDeployment d c.id c.deployedAt) (rowsWithout rows path ++ [row])
    fun settings events => by
      unfold Tables.saveDeployment
      rw [hparse]
      rfl
  refine ⟨rowsWithout rows path ++ [row], ?_⟩
  simp only [Host.advance, hstored]
  refine hc.change path hs (nodup_rowsWithout_append hc.nodup rfl)
    (fun new hnew => ?_) (by simp [Stage.call?])
    (fun p hp => ⟨by rw [hsame.contexts], by rw [hsame.descriptors], fun old hold => ?_⟩)
    (hc.ne_midway rfl) (.inr rfl) (.inl ⟨rfl, ?_⟩) trivial
  · rcases List.mem_append.1 hnew with hold | hrow
    · exact .inl (mem_rowsWithout.1 hold).1
    · obtain rfl := List.mem_singleton.1 hrow
      exact .inr rfl
  · have hne : old.contextPath ≠ path.text := fun htext =>
      hp (ContextPath.ext_text (hold.symm.trans htext))
    rw [List.mem_append, mem_rowsWithout, List.mem_singleton]
    refine ⟨fun hor => ?_, fun hin => .inl ⟨hin, hne⟩⟩
    rcases hor with ⟨hin, -⟩ | rfl
    · exact hin
    · exact absurd rfl hne
  · refine ⟨?_, fun {new} hnew hkey => ⟨d, ?_, ?_⟩, fun _ => ⟨row, by simp, rfl⟩⟩
    · rw [hsame.contexts, hsame.descriptors, htaken, hd]
      rfl
    · rw [hsame.descriptors, hd]
    · -- the only row for the path is the new one
      rcases List.mem_append.1 hnew with hold | hrow
      · exact absurd hkey (mem_rowsWithout.1 hold).2
      · obtain rfl := List.mem_singleton.1 hrow
        exact Descriptor.ofText_toText d

theorem take (hfair : ∀ path, ¬ Contended calls path)
    (hc : Courses calls h (.take path ::ₘ others) rows) :
    Courses calls (Host.advance (h, .take path)).1
      ((Host.advance (h, .take path)).2 ::ₘ others) rows := by
  cases hget : h.contexts.get? path with
  | none =>
    simp only [Host.advance, hget]
    exact hc.stay hc.stores rfl rfl (by simp [Stage.call?]) rfl trivial
  | some c =>
    have hothers : ∀ t ∈ others, t.midway ≠ some path :=
      free_of_midway hfair hc rfl (.inr ⟨rfl, by rw [hget]; rfl⟩)
    simp only [Host.advance, hget]
    refine hc.change path (hc.stores.of_database_eq rfl) hc.nodup
      (fun row hrow => .inl hrow) (by simp [Stage.call?])
      (fun p hp => ⟨?_, rfl, fun _ _ => Iff.rfl⟩) hothers (.inl rfl) (.inr rfl) ?_
    · simp [removeContext, hp]
    · simp [Stage.Holds, removeContext]

theorem delete {c : Context} (hc : Courses calls h (.delete path c ::ₘ others) rows) :
    ∃ rows', Courses calls (Host.advance (h, .delete path c)).1
      ((Host.advance (h, .delete path c)).2 ::ₘ others) rows' := by
  obtain ⟨hfree, hnone⟩ := hc.holds (Multiset.mem_cons_self ..)
  obtain ⟨removed, hremoved, hs, hsame⟩ := hc.stores.onDatabase
    (fun tables => tables.deleteDeployment path) (rowsWithout rows path)
    fun settings events => rfl
  refine ⟨rowsWithout rows path, ?_⟩
  simp only [Host.advance, hremoved]
  refine hc.change path hs (nodup_rowsWithout hc.nodup path)
    (fun row hrow => .inl (mem_rowsWithout.1 hrow).1) (by simp [Stage.call?])
    (fun p hp => ⟨by rw [hsame.contexts], by rw [hsame.descriptors], fun row hrow => ?_⟩)
    (hc.ne_midway rfl) (.inr rfl) (.inl ⟨rfl, ?_⟩) trivial
  · rw [mem_rowsWithout]
    exact and_iff_left fun htext => hp (ContextPath.ext_text (hrow.symm.trans htext))
  · have hnone' : removed.descriptors.get? path = none := by
      rw [hsame.descriptors]
      exact hnone
    refine ⟨?_, fun hrow hkey => absurd hkey (mem_rowsWithout.1 hrow).2, fun hd => ?_⟩
    · rw [hsame.contexts, hnone']
      exact congrArg Option.isSome hfree
    · rw [hnone'] at hd
      cases hd

/-- Whichever call goes on, what holds between the sections holds after its next one. -/
theorem advance (hfair : ∀ path, ¬ Contended calls path)
    (hc : Courses calls h (s ::ₘ others) rows) :
    ∃ rows', Courses calls (Host.advance (h, s)).1 ((Host.advance (h, s)).2 ::ₘ others)
      rows' := by
  have hholds := hc.holds (Multiset.mem_cons_self s others)
  cases s with
  | register d => exact ⟨rows, hc.register hfair⟩
  | read path d =>
    obtain ⟨hparse, htaken, hrest⟩ := hholds
    obtain ⟨c, hget⟩ := Option.isSome_iff_exists.1 htaken
    refine ⟨rows, ?_⟩
    simp only [Host.advance, hget]
    exact hc.stay hc.stores rfl rfl (by simp [Stage.call?]) rfl ⟨hparse, htaken, hrest⟩
  | save path d c => exact hc.save
  | take path => exact ⟨rows, hc.take hfair⟩
  | forget path c =>
    refine ⟨rows, hc.change path (hc.stores.of_database_eq rfl) hc.nodup
      (fun row hrow => .inl hrow) (by simp [Host.advance, Stage.call?])
      (fun p hp => ⟨rfl, ?_, fun _ _ => Iff.rfl⟩) (hc.ne_midway rfl) (.inr rfl) (.inr rfl)
      ⟨hholds, ?_⟩⟩
    · simp [Host.advance, removeDescriptor, hp]
    · simp [Host.advance, removeDescriptor]
  | delete path c => exact hc.delete
  | reportDeployed path | reportUndeployed path =>
    exact ⟨rows, hc.stay (hc.stores.record ..) (contexts_record ..) (descriptors_record ..)
      (by simp [Host.advance, Stage.call?]) rfl trivial⟩
  | returned result => exact ⟨rows, hc⟩

theorem overlaps {x y : Host × Multiset Stage} (hfair : ∀ path, ¬ Contended calls path)
    (hrun : Overlaps x y) (hc : ∃ rows, Courses calls x.1 x.2 rows) :
    ∃ rows, Courses calls y.1 y.2 rows := by
  induction hrun with
  | refl => exact hc
  | tail _ hstep ih =>
    cases hstep with
    | advance h s others =>
      obtain ⟨rows, hc⟩ := ih
      exact hc.advance hfair

end Courses

/-- Calls that do not contend for any path leave the tables coherent. -/
theorem coherent_of_overlaps {stages : Multiset Stage} (hk : h.Keyed) (hm : h.Mirrored)
    (hfair : ∀ path, ¬ Contended calls path) (hrun : Overlaps (h, beginAll calls) (h', stages))
    (hdone : ∀ s ∈ stages, s.HasReturned) : h'.Coherent := by
  obtain ⟨rows, hc⟩ := Courses.overlaps hfair hrun (Courses.begin hk hm calls)
  exact hc.finished hdone

end Hosting.Host
