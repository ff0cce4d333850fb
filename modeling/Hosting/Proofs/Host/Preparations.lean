import Hosting.Proofs.Host.Events

/-! # Preparations on their own

    A preparation depends on the context, on what the host lends it, and on the time for what it
    notes down only. So when contexts are prepared one after the other, each of them comes out
    as its own preparation leaves it, and the order does not matter.

    - `Context.prepare_anytime`: the same preparation at another time.
    - `Settles`: these contexts were prepared, and nothing else has changed.
    - `SameUpToTimes`: what two hosts have in common that have prepared the same contexts.
    - `settles_prepareAll`: contexts that are prepared one after the other.
-/

namespace Hosting

/-! ### Times -/

namespace Context

/-- The context without the moment in which it was started. -/
def undated (c : Context) : Context :=
  { c with startedAt := c.startedAt.map fun _ => ⟨0, 0⟩ }

/-- The products of a context bear no time. -/
theorem products?_of_undated_eq {found found' : Option Context}
    (hsame : found.map undated = found'.map undated) :
    found.bind (·.products?) = found'.bind (·.products?) := by
  have hundated (c : Context) : c.undated.products? = c.products? := rfl
  have hboth := congrArg (Option.bind · (·.products?)) hsame
  simpa only [Option.bind_map, Function.comp_def, hundated] using hboth

theorem prepareAt_anytime (c : Context) (env : Environment) (base : BaseResource)
    (now later : Instant) :
    (c.prepareAt env later base).outcome = (c.prepareAt env now base).outcome ∧
      (c.prepareAt env later base).calls = (c.prepareAt env now base).calls ∧
      (c.prepareAt env later base).context.undated =
        (c.prepareAt env now base).context.undated := by
  unfold prepareAt
  dsimp only
  split <;> exact ⟨rfl, rfl, rfl⟩

/-- At another time, a preparation ends in the same way. -/
theorem prepare_anytime (c : Context) (env : Environment) (now later : Instant) :
    (c.prepare env later).outcome = (c.prepare env now).outcome ∧
      (c.prepare env later).calls = (c.prepare env now).calls ∧
      (c.prepare env later).context.undated = (c.prepare env now).context.undated := by
  unfold prepare
  cases c.state with
  | starting => exact ⟨rfl, rfl, rfl⟩
  | started => exact ⟨rfl, rfl, rfl⟩
  | stopped => exact ⟨rfl, rfl, rfl⟩
  | deployed =>
    cases c.establish env with
    | error e => exact ⟨rfl, rfl, rfl⟩
    | ok base => exact prepareAt_anytime c env base now later
  | failed reason =>
    cases c.establish env with
    | error e => exact ⟨rfl, rfl, rfl⟩
    | ok base => exact prepareAt_anytime c env base now later

end Context

namespace Host

variable {h h' h₁ h₂ : Host} {env : Environment} {cs ds : List Context}

/-- Two hosts hold the same contexts but for their times, and tell the same of every path. -/
structure SameUpToTimes (h h' : Host) : Prop where
  contexts (p : ContextPath) :
    (h.contexts.get? p).map (·.undated) = (h'.contexts.get? p).map (·.undated)
  heard (p : ContextPath) : h.heard p = h'.heard p

/-! ### Contexts that were prepared -/

/-- Each of these contexts was prepared once, and that was told of its path. Nothing else has
    changed. -/
structure Settles (env : Environment) (cs : List Context) (h h' : Host) : Prop where
  prepared : ∀ c ∈ cs, ∀ now, (h'.contexts.get? c.path).map (·.undated) =
    some (c.prepare env now).context.undated
  kept : ∀ p, p ∉ cs.map (·.path) → h'.contexts.get? p = h.contexts.get? p
  told : ∀ c ∈ cs, ∀ now, h'.heard c.path =
    if h.takesEvents = true then
      (h.heard c.path).map (startupEvent (c.prepare env now).outcome :: ·)
    else h.heard c.path
  untold : ∀ p, p ∉ cs.map (·.path) → h'.heard p = h.heard p
  takesEvents : h'.takesEvents = h.takesEvents

namespace Settles

theorem nil (env : Environment) (h : Host) : Settles env [] h h where
  prepared _ hc := by cases hc
  kept _ _ := rfl
  told _ hc := by cases hc
  untold _ _ := rfl
  takesEvents := rfl

/-- One context is put in its place. -/
theorem settle (h : Host) (env : Environment) (c : Context) (now : Instant) :
    Settles env [c] h (h.settle (c.prepare env now)) := by
  have hpath : (c.prepare env now).context.path = c.path := Context.prepare_path ..
  constructor
  case prepared =>
    intro c' hc' later
    obtain rfl := List.mem_singleton.1 hc'
    obtain ⟨-, -, hcopy⟩ := Context.prepare_anytime c' env now later
    rw [contexts_settle, PathTable.get?_insert, if_pos hpath.symm, hcopy]
    rfl
  case kept =>
    intro p hp
    have hne : p ≠ c.path := fun heq => hp (List.mem_singleton.2 heq)
    rw [contexts_settle, PathTable.get?_insert, hpath, if_neg hne]
  case told =>
    intro c' hc' later
    obtain rfl := List.mem_singleton.1 hc'
    obtain ⟨houtcome, -, -⟩ := Context.prepare_anytime c' env now later
    rw [heard_settle, hpath, houtcome]
    simp only [and_true]
  case untold =>
    intro p hp
    have hne : p ≠ c.path := fun heq => hp (List.mem_singleton.2 heq)
    rw [heard_settle, hpath, if_neg fun hboth => hne hboth.2]
  case takesEvents => exact takesEvents_settle ..

/-- Only the contexts and the database of the host before it count. -/
theorem of_eq (hs : Settles env cs h h') (hcontexts : h₁.contexts = h.contexts)
    (hdatabase : h₁.database = h.database) : Settles env cs h₁ h' := by
  have hheard (p : ContextPath) : h₁.heard p = h.heard p := heard_of_database_eq hdatabase p
  have htakes : h₁.takesEvents = h.takesEvents := takesEvents_of_database_eq hdatabase
  constructor
  case prepared => exact hs.prepared
  case kept =>
    intro p hp
    rw [hcontexts]
    exact hs.kept p hp
  case told =>
    intro c hc now
    rw [hheard, htakes]
    exact hs.told c hc now
  case untold =>
    intro p hp
    rw [hheard]
    exact hs.untold p hp
  case takesEvents =>
    rw [htakes]
    exact hs.takesEvents

/-- Contexts of other paths are prepared after them. -/
theorem append (hs : Settles env cs h h₁) (hs' : Settles env ds h₁ h')
    (hnodup : ((cs ++ ds).map (·.path)).Nodup) : Settles env (cs ++ ds) h h' := by
  rw [List.map_append, List.nodup_append] at hnodup
  obtain ⟨-, -, hdisjoint⟩ := hnodup
  have hfirst {c : Context} (hc : c ∈ cs) : c.path ∉ ds.map (·.path) :=
    fun hd => hdisjoint _ (List.mem_map_of_mem hc) _ hd rfl
  have hlater {d : Context} (hd : d ∈ ds) : d.path ∉ cs.map (·.path) :=
    fun hc => hdisjoint _ hc _ (List.mem_map_of_mem hd) rfl
  have hneither {p : ContextPath} (hp : p ∉ (cs ++ ds).map (·.path)) :
      p ∉ cs.map (·.path) ∧ p ∉ ds.map (·.path) := by
    rw [List.map_append, List.mem_append, not_or] at hp
    exact hp
  constructor
  case prepared =>
    intro c hc now
    rcases List.mem_append.1 hc with hc | hc
    · rw [hs'.kept _ (hfirst hc)]
      exact hs.prepared c hc now
    · exact hs'.prepared c hc now
  case kept =>
    intro p hp
    rw [hs'.kept p (hneither hp).2, hs.kept p (hneither hp).1]
  case told =>
    intro c hc now
    rcases List.mem_append.1 hc with hc | hc
    · rw [hs'.untold _ (hfirst hc)]
      exact hs.told c hc now
    · rw [hs'.told c hc now, hs.takesEvents, hs.untold _ (hlater hc)]
  case untold =>
    intro p hp
    rw [hs'.untold p (hneither hp).2, hs.untold p (hneither hp).1]
  case takesEvents => rw [hs'.takesEvents, hs.takesEvents]

/-- The order in which they are listed does not matter. -/
theorem perm (hs : Settles env cs h h') (hperm : cs.Perm ds) : Settles env ds h h' where
  prepared c hc := hs.prepared c (hperm.mem_iff.2 hc)
  kept p hp := hs.kept p fun hin => hp ((hperm.map _).mem_iff.1 hin)
  told c hc := hs.told c (hperm.mem_iff.2 hc)
  untold p hp := hs.untold p fun hin => hp ((hperm.map _).mem_iff.1 hin)
  takesEvents := hs.takesEvents

/-- What was prepared says everything but the times. -/
theorem sameUpToTimes (hs : Settles env cs h h₁) (hs' : Settles env cs h h₂) :
    h₁.SameUpToTimes h₂ := by
  constructor
  case contexts =>
    intro p
    by_cases hp : p ∈ cs.map (·.path)
    · obtain ⟨c, hc, rfl⟩ := List.mem_map.1 hp
      rw [hs.prepared c hc ⟨0, 0⟩, hs'.prepared c hc ⟨0, 0⟩]
    · rw [hs.kept p hp, hs'.kept p hp]
  case heard =>
    intro p
    by_cases hp : p ∈ cs.map (·.path)
    · obtain ⟨c, hc, rfl⟩ := List.mem_map.1 hp
      rw [hs.told c hc ⟨0, 0⟩, hs'.told c hc ⟨0, 0⟩]
    · rw [hs.untold p hp, hs'.untold p hp]

end Settles

/-! ### Contexts that can be prepared -/

/-- These contexts are in the table, each under its own path, and wait to be prepared. Their
    processors do not call the host. -/
structure Startable (env : Environment) (h : Host) (cs : List Context) : Prop where
  nodup : (cs.map (·.path)).Nodup
  current : ∀ c ∈ cs, h.contexts.get? c.path = some c
  pending : ∀ c ∈ cs, c.IsPending
  quiet : ∀ c ∈ cs, ∀ now, (c.prepare env now).calls = []

theorem Startable.perm (hs : Startable env h cs) (hperm : ds.Perm cs) : Startable env h ds where
  nodup := (hperm.map _).nodup_iff.2 hs.nodup
  current c hc := hs.current c (hperm.mem_iff.1 hc)
  pending c hc := hs.pending c (hperm.mem_iff.1 hc)
  quiet c hc := hs.quiet c (hperm.mem_iff.1 hc)

/-- While others are prepared, a context stays as it was. -/
theorem Startable.current_of_settles (hs : Startable env h cs) {done rest : List Context}
    (hperm : cs.Perm (done ++ rest)) (hdone : Settles env done h h') {c : Context}
    (hc : c ∈ rest) : h'.contexts.get? c.path = some c := by
  have hnodup := (hperm.map (·.path)).nodup_iff.1 hs.nodup
  rw [List.map_append, List.nodup_append] at hnodup
  have hnew : c.path ∉ done.map (·.path) :=
    fun hin => hnodup.2.2 _ hin _ (List.mem_map_of_mem hc) rfl
  rw [hdone.kept _ hnew]
  exact hs.current c (hperm.mem_iff.2 (List.mem_append_right done hc))

theorem finishTask_of_current {c : Context} {now : Instant}
    (hc : h.contexts.get? c.path = some c) (hquiet : (c.prepare env now).calls = []) :
    h.finishTask (startupTask env now c) =
      (h.settle (c.prepare env now), (c.path, (c.prepare env now).outcome)) := by
  have hput := putBack_of_current hc env now
  have hfinish : h.finishTask (startupTask env now c) =
      ((h.performAll (c.prepare env now).calls).putBack (startupTask env now c),
        ((c.prepare env now).context.path, (c.prepare env now).outcome)) := rfl
  rw [hfinish, hquiet, Context.prepare_path]
  show (h.putBack (startupTask env now c), _) = _
  rw [hput]

/-! ### One context after the other -/

@[simp] theorem settings_record (h : Host) (path : ContextPath) (event : String)
    (details : Option String) : (h.record path event details).settings = h.settings :=
  record_keeps (·.settings) (fun _ _ _ => rfl) h path event details

@[simp] theorem settings_onDatabase (h : Host) (f : Tables → Except Failure Tables) :
    (h.onDatabase f).1.settings = h.settings :=
  onDatabase_keeps (·.settings) (fun _ _ => rfl) h f

@[simp] theorem settings_undeploy (h : Host) (path : ContextPath) :
    (h.undeploy path).1.settings = h.settings := by
  rcases undeploy_parts h path with hsame | ⟨f, hs | hs⟩
  · rw [hsame]
  · rw [hs, settings_onDatabase]
    rfl
  · rw [hs, settings_record, settings_onDatabase]
    rfl

@[simp] theorem environment_settle (h : Host) (prep : Preparation) (m : Machine) :
    (h.settle prep).environment m = h.environment m := by
  unfold settle environment
  rw [recordStartup_eq, settings_record, registry_record]
  rfl

/-- The contexts of these paths are prepared on their own, one after the other. -/
def prepareAll (h : Host) (m : Machine) (paths : List ContextPath) : Host :=
  paths.foldl (fun h path => (h.prepare m path).1) h

theorem settles_prepareAll {m : Machine} (hs : Startable (h.environment m) h cs) :
    Settles (h.environment m) cs h (h.prepareAll m (cs.map (·.path))) := by
  induction cs generalizing h with
  | nil => exact .nil _ h
  | cons c cs ih =>
    have hprepare : (h.prepare m c.path).1 = h.tick.settle (h.preparationOf m c) :=
      prepare_of_pending (hs.current c (by simp)) (hs.pending c (by simp))
        (hs.quiet c (by simp) _)
    have hfirst : Settles (h.environment m) [c] h (h.prepare m c.path).1 := by
      rw [hprepare]
      exact (Settles.settle h.tick (h.environment m) c h.supply.now).of_eq rfl rfl
    have henv : (h.prepare m c.path).1.environment m = h.environment m := by
      rw [hprepare, environment_settle]
      rfl
    -- the others are as they were
    have hrest : Startable (h.environment m) (h.prepare m c.path).1 cs := by
      constructor
      case nodup => exact (List.nodup_cons.1 hs.nodup).2
      case current =>
        intro c' hc'
        exact hs.current_of_settles (List.Perm.refl ([c] ++ cs)) hfirst hc'
      case pending => exact fun c' hc' => hs.pending c' (List.mem_cons_of_mem c hc')
      case quiet => exact fun c' hc' => hs.quiet c' (List.mem_cons_of_mem c hc')
    rw [← henv] at hrest
    have hlater := ih hrest
    rw [henv] at hlater
    exact hfirst.append hlater hs.nodup

end Host

end Hosting
