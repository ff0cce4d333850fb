import Hosting.Proofs.Host.Turns
import Mathlib.Data.Multiset.AddSub

/-! # Preparations that overlap

    A preparation reads a context, works on what it has read for as long as it takes, and
    then puts its copy in place of the context, if that is of the same deployment still. Two
    preparations of one deployment may be under way at once. Both have read the context
    before it was started, so neither is refused, and the one that ends last decides.

    - `Reading`, `Motion`: preparations under way beside a host, and what can happen. Each
      operation is a run of motions (`motions_prepare`, `motions_startAll`,
      `motions_redeploy`).
    - `Sound`: what holds of every host with its preparations under way.
    - `stays_started_iff`: when a started context stays started.
    - `not_stays_started`: a preparation that fails after another one has succeeded.
-/

namespace Hosting.Host

/-! ### Preparations under way -/

/-- What a preparation is made for. -/
inductive Purpose where
  /-- For the context that was read. -/
  | prepare
  /-- For the context that was read, as one of a start of all. -/
  | startAll
  /-- For a new context from the stored descriptor, which replaces any. -/
  | redeploy
deriving DecidableEq

/-- A preparation under way: the context that was read or made, and what it is prepared in. -/
structure Reading where
  purpose : Purpose
  context : Context
  environment : Environment
  now : Instant

namespace Reading

/-- What the preparation comes to. -/
def preparation (r : Reading) : Preparation :=
  r.context.prepare r.environment r.now

/-- The host after the preparation has ended. -/
def land (r : Reading) (h : Host) : Host :=
  match r.purpose with
  | .prepare => (h.finishPrepare r.context.path r.context.id r.preparation).1
  | .startAll => h.putBack ⟨r.context.id, r.preparation⟩
  | .redeploy => (h.finishRedeploy r.context.path r.preparation).1

/-- The preparation fails, and is not just refused for a context that was started. -/
def Fails (r : Reading) : Prop :=
  ∃ e, r.preparation.outcome = .error e ∧ ∀ text, e ≠ .alreadyStarted text

end Reading

/-- The preparations that a start of all begins, each with the file tree that it sees. -/
def readAll (h : Host) (machine : Context → Machine) : List Reading :=
  h.pending.map fun c => ⟨.startAll, c, h.environment (machine c), h.supply.now⟩

theorem get?_of_mem_readAll {h : Host} {machine : Context → Machine} {r : Reading}
    (hr : r ∈ h.readAll machine) : ∃ path, h.contexts.get? path = some r.context := by
  obtain ⟨c, hc, rfl⟩ := List.mem_map.1 hr
  exact PathTable.mem_values_iff.1 (List.mem_filter.1 hc).1

/-- What can happen to a host and the preparations under way beside it. Only the paths in `Q` are
    undeployed or redeployed. -/
inductive Motion (Q : ContextPath → Prop) :
    Host × Multiset Reading → Host × Multiset Reading → Prop where
  | read (h : Host) (rs : Multiset Reading) (m : Machine) {path : ContextPath} {c : Context} :
      h.contexts.get? path = some c →
      Motion Q (h, rs) (h.tick, ⟨.prepare, c, h.environment m, h.supply.now⟩ ::ₘ rs)
  | readAll (h : Host) (rs : Multiset Reading) (machine : Context → Machine) :
      Motion Q (h, rs) (h.tick, h.readAll machine + rs)
  /-- A redeployment makes its context. -/
  | renew (h : Host) (rs : Multiset Reading) (m : Machine) {path : ContextPath}
      {d : Descriptor} {c : Context} : h.descriptors.get? path = some d →
      Context.ofDescriptor h.supply.id h.supply.now d = .ok c →
      Motion Q (h, rs) (h.tick, ⟨.redeploy, c, h.environment m, h.supply.now⟩ ::ₘ rs)
  /-- A preparation ends. -/
  | land (h : Host) (r : Reading) (rs : Multiset Reading) :
      (r.purpose = .redeploy → Q r.context.path) → Motion Q (h, r ::ₘ rs) (r.land h, rs)
  | deploy (h : Host) (rs : Multiset Reading) (d : Descriptor) :
      Motion Q (h, rs) ((h.deploy d).1, rs)
  | undeploy (h : Host) (rs : Multiset Reading) (path : ContextPath) : Q path →
      Motion Q (h, rs) ((h.undeploy path).1, rs)
  | updateSettings (h : Host) (rs : Multiset Reading) (f : Settings → Settings) :
      Motion Q (h, rs) (h.updateSettings f, rs)
  | saveSettings (h : Host) (rs : Multiset Reading) : Motion Q (h, rs) (h.saveSettings.1, rs)

/-- A run of any length. -/
def Motions (Q : ContextPath → Prop) :
    Host × Multiset Reading → Host × Multiset Reading → Prop :=
  Relation.ReflTransGen (Motion Q)

variable {h h' : Host} {rs rs' : Multiset Reading} {r : Reading} {p path : ContextPath}
  {Q : ContextPath → Prop}

/-! ### Operations as motions -/

theorem motions_performAll (hQ : ∀ path, Q path) (h : Host) (rs : Multiset Reading)
    (calls : List HostCall) : Motions Q (h, rs) (h.performAll calls, rs) := by
  induction calls generalizing h with
  | nil => exact .refl
  | cons call calls ih =>
    have hcall : Motion Q (h, rs) (h.perform call, rs) := by
      cases call with
      | deploy d => exact .deploy h rs d
      | undeploy path => exact .undeploy h rs path (hQ path)
    exact .head hcall (ih (h.perform call))

theorem motions_prepare (hQ : ∀ path, Q path) (hk : h.Keyed) (m : Machine) (path : ContextPath)
    (rs : Multiset Reading) : Motions Q (h, rs) ((h.prepare m path).1, rs) := by
  rcases prepare_cases h m path with hsame | ⟨c, hc, hprep⟩
  · rw [hsame]
    exact .refl
  · let r : Reading := ⟨.prepare, c, h.environment m, h.supply.now⟩
    have hread : Motions Q (h, rs) (h.tick, r ::ₘ rs) := .single (.read h rs m hc)
    have hcalls := motions_performAll hQ h.tick (r ::ₘ rs) (h.preparationOf m c).calls
    have hland := Motion.land (Q := Q) (h.tick.performAll (h.preparationOf m c).calls) r rs
      fun hpurpose => by cases hpurpose
    rw [hprep, ← hk.context_path hc]
    exact (hread.trans hcalls).tail hland

theorem motions_redeploy (hQ : ∀ path, Q path) (hk : h.Keyed) (m : Machine) (path : ContextPath)
    (rs : Multiset Reading) : Motions Q (h, rs) ((h.redeploy m path).1, rs) := by
  cases hd : h.descriptors.get? path with
  | none =>
    unfold redeploy
    rw [hd]
    exact .refl
  | some d =>
    -- the stored descriptor makes a context for the path that it is stored under
    obtain ⟨c, hc, hpath⟩ : ∃ c, Context.ofDescriptor h.supply.id h.supply.now d = .ok c ∧
        c.path = path := by
      unfold Context.ofDescriptor
      rw [hk.descriptor_path hd]
      exact ⟨_, rfl, rfl⟩
    let r : Reading := ⟨.redeploy, c, h.environment m, h.supply.now⟩
    have hread : Motions Q (h, rs) (h.tick, r ::ₘ rs) := .single (.renew h rs m hd hc)
    have hcalls := motions_performAll hQ h.tick (r ::ₘ rs) r.preparation.calls
    have hland := Motion.land (Q := Q) (h.tick.performAll r.preparation.calls) r rs
      fun _ => hQ _
    have hend : (h.redeploy m path).1 = r.land (h.tick.performAll r.preparation.calls) := by
      unfold redeploy
      rw [hd]
      simp only [hc]
      rw [← hpath]
      rfl
    rw [hend]
    exact (hread.trans hcalls).tail hland

theorem motions_finishTasks (hQ : ∀ path, Q path) (env : Environment) (now : Instant)
    (cs : List Context) (h : Host) (rs : Multiset Reading) :
    Motions Q (h, (cs.map (Reading.mk .startAll · env now) : Multiset Reading) + rs)
      ((h.finishTasks (cs.map (startupTask env now))).1, rs) := by
  induction cs generalizing h with
  | nil =>
    rw [List.map_nil, Multiset.coe_nil, Multiset.zero_add]
    exact .refl
  | cons c cs ih =>
    let r : Reading := ⟨.startAll, c, env, now⟩
    let rest : Multiset Reading := cs.map (Reading.mk .startAll · env now)
    have hcalls := motions_performAll hQ h (r ::ₘ (rest + rs)) r.preparation.calls
    have hland := Motion.land (Q := Q) (h.performAll r.preparation.calls) r (rest + rs)
      fun hpurpose => by cases hpurpose
    rw [List.map_cons, ← Multiset.cons_coe, Multiset.cons_add]
    exact (hcalls.tail hland).trans (ih _)

theorem motions_startAll (hQ : ∀ path, Q path) (h : Host) (m : Machine)
    (rs : Multiset Reading) : Motions Q (h, rs) ((h.startAll m).1, rs) := by
  have hread := Motion.readAll (Q := Q) h rs fun _ => m
  exact .head hread (motions_finishTasks hQ (h.environment m) h.supply.now h.pending h.tick rs)

/-! ### What the end of a preparation does -/

/-- The end of a preparation leaves the table of contexts alone, or puts the copy in place of
    another context: of any one after a redeployment, and otherwise of the deployment that was
    read, unless the preparation was refused. -/
theorem contexts_land (r : Reading) (h : Host) :
    (r.land h).contexts = h.contexts ∨
      ∃ current, h.contexts.get? r.context.path = some current ∧
        (r.purpose ≠ .redeploy → current.id = r.context.id) ∧
        (r.land h).contexts = h.contexts.insert r.context.path r.preparation.context := by
  have hpath : r.preparation.context.path = r.context.path := Context.prepare_path ..
  unfold Reading.land
  cases r.purpose <;> dsimp only
  case prepare =>
    rcases finishPrepare_cases h r.context.path r.context.id r.preparation with hsame |
      ⟨-, ⟨current, hcurrent, hid⟩, hput⟩
    · exact .inl (by rw [hsame])
    · rw [hpath] at hcurrent
      rw [hput, contexts_recordStartup, contexts_insertContext, hpath]
      exact .inr ⟨current, hcurrent, fun _ => hid, rfl⟩
  case startAll =>
    rw [putBack, contexts_recordStartup]
    rcases storePrepared_cases h r.context.id r.preparation.context with ⟨e, he⟩ |
      ⟨current, hcurrent, hid, hok⟩
    · exact .inl (by rw [he])
    · rw [hpath] at hcurrent
      rw [hok, contexts_insertContext, hpath]
      exact .inr ⟨current, hcurrent, fun _ => hid, rfl⟩
  case redeploy =>
    rcases finishRedeploy_cases h r.context.path r.preparation with hsame |
      ⟨⟨current, hcurrent⟩, hput⟩
    · exact .inl (by rw [hsame])
    · rw [hput, contexts_recordStartup, contexts_record]
      exact .inr ⟨current, hcurrent, fun hne => absurd rfl hne, rfl⟩

/-- A preparation that fails is put in place of the context that it was made for. -/
theorem contexts_land_of_fails {current : Context} (hpurpose : r.purpose ≠ .redeploy)
    (hfails : r.Fails) (hcurrent : h.contexts.get? r.context.path = some current)
    (hid : current.id = r.context.id) :
    (r.land h).contexts.get? r.context.path = some r.preparation.context := by
  have hpath : r.preparation.context.path = r.context.path := Context.prepare_path ..
  obtain ⟨e, he, hne⟩ := hfails
  have hstore : h.storePrepared r.context.id r.preparation.context =
      (h.insertContext r.preparation.context, .ok ()) :=
    storePrepared_of_current (by rw [hpath]; exact hcurrent) hid
  unfold Reading.land
  cases hp : r.purpose with
  | prepare =>
    simp only [finishPrepare, he]
    split
    · next text heq => exact absurd (Except.error.inj heq) (hne text)
    · simp only [hstore, contexts_recordStartup, contexts_insertContext, hpath]
      simp
  | startAll =>
    simp only [putBack, hstore, contexts_recordStartup, contexts_insertContext, hpath]
    simp
  | redeploy => exact absurd hp hpurpose

theorem state_of_fails (hfails : r.Fails) : r.preparation.context.state ≠ .started := by
  obtain ⟨e, he, hne⟩ := hfails
  unfold Reading.preparation at he ⊢
  rcases Context.prepare_cases r.context r.environment r.now with ⟨-, h⟩ | ⟨hs, h⟩ |
    ⟨-, cause, calls, -, h⟩ | ⟨-, list, setup, calls, h⟩
  · rw [h] at he
    exact absurd (Except.error.inj he).symm (hne _)
  · rw [h, hs]
    simp
  · rw [h]
    simp [Context.markFailed]
  · rw [h] at he
    cases he

theorem state_of_not_fails (hsettled : r.context.IsSettled) (hnot : ¬ r.Fails) :
    r.preparation.context.state = .started := by
  unfold Reading.Fails Reading.preparation at hnot
  unfold Reading.preparation
  rcases Context.prepare_cases r.context r.environment r.now with ⟨hs, h⟩ | ⟨hs, h⟩ |
    ⟨-, cause, calls, hne, h⟩ | ⟨-, list, setup, calls, h⟩
  · rw [h]
    rcases hs with hs | hs
    · rcases hsettled.state with h' | h' | ⟨reason, h'⟩ <;> rw [hs] at h' <;> cases h'
    · exact hs
  · rw [h] at hnot
    exact absurd ⟨_, rfl, by simp⟩ hnot
  · rw [h] at hnot
    exact absurd ⟨_, rfl, hne⟩ hnot
  · rw [h]
    rfl

/-- A started context is refused. -/
theorem not_fails_of_started (hs : r.context.state = .started) : ¬ r.Fails := by
  rintro ⟨e, he, hne⟩
  unfold Reading.preparation Context.prepare at he
  rw [hs] at he
  exact hne _ (Except.error.inj he).symm

/-! ### Hosts with their preparations -/

/-- What holds of every host and the preparations under way beside it. -/
structure Sound (x : Host × Multiset Reading) : Prop where
  keyed : x.1.Keyed
  settled {r : Reading} : r ∈ x.2 → r.context.IsSettled

theorem writes_land (hsettled : r.context.IsSettled) (h : Host) : Writes h (r.land h) := by
  have hpath : r.preparation.context.path = r.context.path := Context.prepare_path ..
  have hprepared : r.preparation.context.IsSettled := hsettled.prepare ..
  unfold Reading.land
  cases r.purpose with
  | prepare =>
    rcases finishPrepare_cases h r.context.path r.context.id r.preparation with hsame |
      ⟨-, ⟨current, hcurrent, -⟩, hput⟩
    · simp only [hsame]
      exact .refl
    · simp only [hput]
      exact .tail (.single (.replace _ _ hprepared ⟨current, hcurrent⟩))
        (write_recordStartup ..)
  | startAll => exact writes_putBack h hprepared
  | redeploy =>
    rcases finishRedeploy_cases h r.context.path r.preparation with hsame | ⟨hin, hput⟩
    · simp only [hsame]
      exact .refl
    · rw [← hpath] at hin
      simp only [hput]
      rw [← hpath]
      exact ((Relation.ReflTransGen.single (Write.replace _ _ hprepared hin)).tail
        (.record ..)).tail (write_recordStartup ..)

theorem Sound.motion {x y : Host × Multiset Reading} (hx : Sound x) (hm : Motion Q x y) :
    Sound y := by
  obtain ⟨hk, hsettled⟩ := hx
  have hcons {c : Context} {purpose : Purpose} {env : Environment} {now : Instant}
      {rs : Multiset Reading} (hc : c.IsSettled) (hrs : ∀ {r}, r ∈ rs → r.context.IsSettled) :
      ∀ {r : Reading}, r ∈ ⟨purpose, c, env, now⟩ ::ₘ rs → r.context.IsSettled := by
    intro r hr
    rcases Multiset.mem_cons.1 hr with rfl | hr
    · exact hc
    · exact hrs hr
  cases hm with
  | read h rs m hc => exact ⟨hk.tick, hcons (hk.settled hc) hsettled⟩
  | readAll h rs machine =>
    refine ⟨hk.tick, fun hr => ?_⟩
    rcases Multiset.mem_add.1 hr with hr | hr
    · obtain ⟨q, hq⟩ := get?_of_mem_readAll (Multiset.mem_coe.1 hr)
      exact hk.settled hq
    · exact hsettled hr
  | renew h rs m hd hc => exact ⟨hk.tick, hcons (Context.isSettled_ofDescriptor hc) hsettled⟩
  | land h r rs hQ =>
    exact ⟨hk.writes (writes_land (hsettled (Multiset.mem_cons_self ..)) h),
      fun hr => hsettled (Multiset.mem_cons_of_mem hr)⟩
  | deploy h rs d => exact ⟨hk.write (.deploy h d), hsettled⟩
  | undeploy h rs path hQ => exact ⟨hk.undeploy path, hsettled⟩
  | updateSettings h rs f => exact ⟨hk.write (.updateSettings h f), hsettled⟩
  | saveSettings h rs => exact ⟨hk.write (.saveSettings h), hsettled⟩

/-- A host and the preparations under way that some run leads to. -/
def Reached (x : Host × Multiset Reading) : Prop :=
  ∃ opened, Opened opened ∧ Motions (fun _ => True) (opened, 0) x

theorem Reached.sound {x : Host × Multiset Reading} (hx : Reached x) : Sound x := by
  obtain ⟨opened, hopened, hmotions⟩ := hx
  induction hmotions with
  | refl => exact ⟨hopened.keyed, fun hr => absurd hr (Multiset.notMem_zero _)⟩
  | tail _ hmotion ih => exact ih.motion hmotion

/-! ### Started contexts -/

/-- The context at `p` is started, and no preparation under way can take it down. -/
structure Steady (p : ContextPath) (id : DeploymentId) (x : Host × Multiset Reading) :
    Prop where
  sound : Sound x
  started : ∃ c, x.1.contexts.get? p = some c ∧ c.state = .started ∧ c.id = id
  harmless {r : Reading} : r ∈ x.2 → r.purpose ≠ .redeploy → r.context.path = p →
    r.context.id = id → ¬ r.Fails

namespace Steady

variable {id : DeploymentId}

/-- What leaves the context at `p` alone, and begins no preparation that can take it down. -/
theorem of_get?_eq {x y : Host × Multiset Reading} (hx : Steady p id x) (hy : Sound y)
    (hsame : y.1.contexts.get? p = x.1.contexts.get? p)
    (hnew : ∀ r ∈ y.2, r ∈ x.2 ∨
      (r.purpose ≠ .redeploy → r.context.path = p → r.context.state = .started)) :
    Steady p id y := by
  refine ⟨hy, ?_, fun {r} hr hpurpose hpath hid => ?_⟩
  · rw [hsame]
    exact hx.started
  · rcases hnew r hr with hold | hnew
    · exact hx.harmless hold hpurpose hpath hid
    · exact not_fails_of_started (hnew hpurpose hpath)

/-- A context that is read at `p` is started. -/
theorem state_of_get? {x : Host × Multiset Reading} (hx : Steady p id x) {c : Context}
    (hc : x.1.contexts.get? path = some c) (hpath : c.path = p) : c.state = .started := by
  obtain ⟨current, hcurrent, hs, -⟩ := hx.started
  obtain rfl := (hx.sound.keyed.context_path hc).symm.trans hpath
  obtain rfl := Option.some.inj (hc.symm.trans hcurrent)
  exact hs

theorem land (hx : Steady p id (h, r ::ₘ rs))
    (hQ : r.purpose = .redeploy → r.context.path ≠ p) : Steady p id (r.land h, rs) := by
  have hy : Sound (r.land h, rs) :=
    hx.sound.motion (Q := fun _ => True) (.land h r rs fun _ => trivial)
  have hold : ∀ r' ∈ rs, r' ∈ r ::ₘ rs ∨ (r'.purpose ≠ .redeploy → r'.context.path = p →
      r'.context.state = .started) := fun r' hr' => .inl (Multiset.mem_cons_of_mem hr')
  rcases contexts_land r h with hsame | ⟨current, hcurrent, hid, hput⟩
  · exact hx.of_get?_eq hy (by rw [hsame]) hold
  · by_cases hpath : r.context.path = p
    · -- the copy is of the started deployment, and its preparation has not failed
      have hpurpose : r.purpose ≠ .redeploy := fun heq => hQ heq hpath
      obtain ⟨c, hc, -, hcid⟩ := hx.started
      have hsame : current.id = id := by
        rw [hpath] at hcurrent
        obtain rfl := Option.some.inj (hcurrent.symm.trans hc)
        exact hcid
      have hrid : r.context.id = id := (hid hpurpose).symm.trans hsame
      have hnot := hx.harmless (Multiset.mem_cons_self ..) hpurpose hpath hrid
      have hsettled := hx.sound.settled (Multiset.mem_cons_self ..)
      refine ⟨hy, ⟨r.preparation.context, ?_, state_of_not_fails hsettled hnot, ?_⟩,
        fun hr => hx.harmless (Multiset.mem_cons_of_mem hr)⟩
      · rw [hput, hpath]
        simp
      · exact (Context.prepare_id ..).trans hrid
    · refine hx.of_get?_eq hy ?_ hold
      rw [hput, PathTable.get?_insert, if_neg (Ne.symm hpath)]

theorem motion {x y : Host × Multiset Reading} (hx : Steady p id x)
    (hm : Motion (· ≠ p) x y) : Steady p id y := by
  have hy := hx.sound.motion hm
  have hadd {r : Reading} {rs : Multiset Reading} (hr : r.purpose ≠ .redeploy →
      r.context.path = p → r.context.state = .started) : ∀ r' ∈ r ::ₘ rs, r' ∈ rs ∨
        (r'.purpose ≠ .redeploy → r'.context.path = p → r'.context.state = .started) := by
    intro r' hr'
    rcases Multiset.mem_cons.1 hr' with rfl | hr'
    · exact .inr hr
    · exact .inl hr'
  cases hm with
  | read h rs m hc => exact hx.of_get?_eq hy rfl (hadd fun _ hpath => hx.state_of_get? hc hpath)
  | readAll h rs machine =>
    refine hx.of_get?_eq hy rfl fun r hr => ?_
    rcases Multiset.mem_add.1 hr with hr | hr
    · obtain ⟨q, hq⟩ := get?_of_mem_readAll (Multiset.mem_coe.1 hr)
      exact .inr fun _ hpath => hx.state_of_get? hq hpath
    · exact .inl hr
  | renew h rs m hd hc => exact hx.of_get?_eq hy rfl (hadd fun hne => absurd rfl hne)
  | land h r rs hQ => exact hx.land hQ
  | deploy h rs d =>
    refine hx.of_get?_eq hy ?_ fun r hr => .inl hr
    rw [(tables_deploy h d).1]
    rcases register_cases h d with ⟨e, he⟩ | ⟨c, -, hfree, hok⟩
    · rw [he]
      rfl
    · -- the path is taken, so the new context came to another one
      have hne : p ≠ c.path := by
        rintro rfl
        obtain ⟨current, hcurrent, -⟩ := hx.started
        rw [hfree] at hcurrent
        cases hcurrent
      rw [hok, insertDescriptor, contexts_insertContext, PathTable.get?_insert, if_neg hne]
      rfl
  | undeploy h rs path hQ =>
    refine hx.of_get?_eq hy ?_ fun r hr => .inl hr
    rcases tables_undeploy h path with hsame | ⟨hcontexts, -⟩
    · rw [hsame]
    · rw [hcontexts, PathTable.get?_erase, if_neg (Ne.symm hQ)]
  | updateSettings h rs f => exact hx.of_get?_eq hy rfl fun r hr => .inl hr
  | saveSettings h rs =>
    exact hx.of_get?_eq hy (by rw [contexts_saveSettings]) fun r hr => .inl hr

theorem motions {x y : Host × Multiset Reading} (hx : Steady p id x)
    (hm : Motions (· ≠ p) x y) : Steady p id y := by
  induction hm with
  | refl => exact hx
  | tail _ hmotion ih => exact ih.motion hmotion

end Steady

/-- Until its path is undeployed or redeployed, a started context stays started whatever else
    happens, exactly if none of the preparations of its deployment that are under way fails. -/
theorem stays_started_iff {c : Context} (hreach : Reached (h, rs))
    (hc : h.contexts.get? p = some c) (hs : c.state = .started) :
    (∀ h' rs', Motions (· ≠ p) (h, rs) (h', rs') →
        ∃ c', h'.contexts.get? p = some c' ∧ c'.state = .started ∧ c'.id = c.id) ↔
      ∀ r ∈ rs, r.purpose ≠ .redeploy → r.context.path = p → r.context.id = c.id →
        ¬ r.Fails := by
  constructor
  · intro hstays r hr hpurpose hpath hid hfails
    -- the preparation that fails may end at once
    obtain ⟨rest, rfl⟩ := Multiset.exists_cons_of_mem hr
    obtain ⟨c', hc', hs', -⟩ := hstays (r.land h) rest
      (.single (.land h r rest fun heq => absurd heq hpurpose))
    subst hpath
    rw [contexts_land_of_fails hpurpose hfails hc hid.symm] at hc'
    obtain rfl := Option.some.inj hc'
    exact state_of_fails hfails hs'
  · intro hharmless h' rs' hmotions
    have hsteady : Steady p c.id (h, rs) :=
      ⟨hreach.sound, ⟨c, hc, hs, rfl⟩, fun {r} hr => hharmless r hr⟩
    exact (hsteady.motions hmotions).started

/-! ### Two preparations of one application -/

/-- The small host with an application that waits to be prepared. -/
def waitingHost : Host :=
  (Sample.host.deploy (.ofBase "/A" "a")).1

/-- The application. -/
def waiting : Context :=
  (waitingHost.contexts.get? Sample.pathA).get (by rfl)

/-- A preparation that succeeds. -/
def prompt : Reading :=
  ⟨.prepare, waiting, waitingHost.environment Sample.machine, waitingHost.supply.now⟩

/-- A second preparation, begun before the first one has ended. -/
def slow (m : Machine) : Reading :=
  ⟨.prepare, waiting, waitingHost.tick.environment m, waitingHost.tick.supply.now⟩

/-- The host after the first has ended. -/
def promptHost : Host :=
  prompt.land waitingHost.tick.tick

theorem reached_promptHost (m : Machine) : Reached (promptHost, {slow m}) := by
  have hwaiting : waitingHost.contexts.get? Sample.pathA = some waiting := by
    rfl
  have hread : Motion (fun _ => True) (waitingHost, 0) (waitingHost.tick, {prompt}) :=
    .read waitingHost 0 Sample.machine hwaiting
  have hread' : Motion (fun _ => True) (waitingHost.tick, {prompt})
      (waitingHost.tick.tick, slow m ::ₘ {prompt}) :=
    .read waitingHost.tick {prompt} m hwaiting
  have hland : Motion (fun _ => True) (waitingHost.tick.tick, prompt ::ₘ {slow m})
      (promptHost, {slow m}) :=
    .land waitingHost.tick.tick prompt {slow m} fun _ => trivial
  have hswap : (prompt ::ₘ {slow m} : Multiset Reading) = slow m ::ₘ {prompt} :=
    Multiset.cons_swap prompt (slow m) 0
  rw [hswap] at hland
  exact ⟨Sample.host, .ofSettings _ _ _,
    .tail (.tail (.tail (.single (.deploy Sample.host 0 (.ofBase "/A" "a"))) hread) hread')
      hland⟩

theorem get?_promptHost :
    promptHost.contexts.get? Sample.pathA = some prompt.preparation.context ∧
      prompt.preparation.context.state = .started :=
  ⟨rfl, rfl⟩

/-- A second preparation that succeeds as well does no harm. -/
theorem stays_started_iff_prompt :
    Reached (promptHost, {slow Sample.machine}) ∧
      promptHost.contexts.get? Sample.pathA = some prompt.preparation.context ∧
      prompt.preparation.context.state = .started ∧
      ∀ h' rs', Motions (· ≠ Sample.pathA) (promptHost, {slow Sample.machine}) (h', rs') →
        ∃ c', h'.contexts.get? Sample.pathA = some c' ∧ c'.state = .started ∧
          c'.id = prompt.preparation.context.id := by
  obtain ⟨hget, hstate⟩ := get?_promptHost
  refine ⟨reached_promptHost _, hget, hstate,
    (stays_started_iff (reached_promptHost _) hget hstate).2 fun r hr _ _ _ => ?_⟩
  obtain rfl := Multiset.mem_singleton.1 hr
  rintro ⟨e, he, -⟩
  have hok : (slow Sample.machine).preparation.outcome = .ok () := by
    rfl
  rw [hok] at he
  cases he

/-- The small machine without any files. -/
def bareMachine : Machine :=
  Sample.machine.withFiles .empty

/-- There, a second preparation fails. -/
theorem fails_slow : (slow bareMachine).Fails := by
  have hout : (slow bareMachine).preparation.outcome =
      .error (.baseResource "/A" "/srv/a: No such file or directory (os error 2)") := by
    decide +kernel
  exact ⟨_, hout, by simp⟩

/-- A second preparation that fails replaces the started application by a failed one. -/
theorem not_stays_started :
    ¬ ∀ (h h' : Host) (rs rs' : Multiset Reading) (p : ContextPath) (c : Context),
      Reached (h, rs) → h.contexts.get? p = some c → c.state = .started →
      Motions (· ≠ p) (h, rs) (h', rs') →
      ∃ c', h'.contexts.get? p = some c' ∧ c'.state = .started ∧ c'.id = c.id := by
  intro hstays
  obtain ⟨hget, hstate⟩ := get?_promptHost
  have hmotion : Motions (· ≠ Sample.pathA) (promptHost, {slow bareMachine})
      ((slow bareMachine).land promptHost, 0) :=
    .single (.land promptHost (slow bareMachine) 0 fun hpurpose => by cases hpurpose)
  obtain ⟨c', hc', hs', -⟩ :=
    hstays _ _ _ _ _ _ (reached_promptHost _) hget hstate hmotion
  have hland : ((slow bareMachine).land promptHost).contexts.get? Sample.pathA =
      some (slow bareMachine).preparation.context :=
    contexts_land_of_fails (r := slow bareMachine) (by decide) fails_slow hget rfl
  obtain rfl := Option.some.inj (hland.symm.trans hc')
  exact state_of_fails fails_slow hs'

end Hosting.Host
