import Hosting.Proofs.Host.Preparations
import Mathlib.Data.List.Nodup

/-! # Starts of all, in any order

    A start of all prepares its contexts on a pool with so many permits. Which preparation gets
    a permit, how long it takes and which copy is put back next is left open. As long as nothing
    else happens to the host, none of this matters: every context comes out as its own
    preparation leaves it, and so it does if the contexts are prepared one by one.

    - `Pool`, `Pool.Step`: a start of all, step by step.
    - `Pool.wellFounded_step`, `Pool.pending_of_stuck`: how it comes to its end.
    - `Pool.Course.step`, `Pool.Course.steps`: what a step keeps, and so a run.
    - `startAll_order_independent`: what comes out, on any number of permits.
-/

namespace Hosting

/-! ### The pool -/

/-- A start of all under way. -/
structure Pool where
  host : Host
  /-- The contexts that wait for a permit. -/
  waiting : List Context
  /-- The contexts that are being prepared. Each of them has a permit. -/
  running : List Context
  /-- The contexts whose preparation has ended, with the time it notes down. Their copies are not
      put back yet. -/
  ended : List (Context × Instant)
  /-- What is reported so far, in the order in which the copies were put back. -/
  results : List Host.StartupResult

namespace Pool

open Host

variable {env : Environment} {permits : Nat} {h : Host} {cs : List Context} {p q : Pool}

/-- What happens next. -/
inductive Step (env : Environment) (permits : Nat) : Pool → Pool → Prop where
  /-- Any of the contexts that wait gets a permit, if one is left. -/
  | acquire {h : Host} {before after running : List Context} {ended : List (Context × Instant)}
      {results : List StartupResult} {c : Context} :
      running.length < permits →
      Step env permits ⟨h, before ++ c :: after, running, ended, results⟩
        ⟨h, before ++ after, c :: running, ended, results⟩
  /-- Any of the preparations ends, at some time, and gives its permit back. -/
  | finish {h : Host} {waiting before after : List Context} {ended : List (Context × Instant)}
      {results : List StartupResult} {c : Context} (now : Instant) :
      Step env permits ⟨h, waiting, before ++ c :: after, ended, results⟩
        ⟨h, waiting, before ++ after, (c, now) :: ended, results⟩
  /-- Any of the copies is put back and reported. -/
  | collect {h : Host} {waiting running : List Context} {before after : List (Context × Instant)}
      {results : List StartupResult} {c : Context} {now : Instant} :
      Step env permits ⟨h, waiting, running, before ++ (c, now) :: after, results⟩
        ⟨(h.finishTask (startupTask env now c)).1, waiting, running, before ++ after,
          results ++ [(h.finishTask (startupTask env now c)).2]⟩

/-- Steps one after the other. -/
def Steps (env : Environment) (permits : Nat) : Pool → Pool → Prop :=
  Relation.ReflTransGen (Step env permits)

/-! ### A start comes to its end -/

/-- The steps that are left for each context, from waiting on. -/
def left (p : Pool) : Nat :=
  3 * p.waiting.length + 2 * p.running.length + p.ended.length

theorem left_of_step (hstep : Step env permits p q) : q.left < p.left := by
  cases hstep with
  | acquire _ =>
    simp only [left, List.length_append, List.length_cons]
    omega
  | finish now =>
    simp only [left, List.length_append, List.length_cons]
    omega
  | collect =>
    simp only [left, List.length_append, List.length_cons]
    omega

/-- No start goes on for ever. -/
theorem wellFounded_step (env : Environment) (permits : Nat) :
    WellFounded fun q p => Step env permits p q :=
  Subrelation.wf (fun hstep => left_of_step hstep) (measure left).wf

/-- The contexts whose copies are not put back yet. -/
def pending (p : Pool) : List Context :=
  p.waiting ++ (p.running ++ p.ended.map (·.1))

/-- With a permit at all, a start does not stop before everything is done. -/
theorem pending_of_stuck (hpermits : 0 < permits) (hstuck : ∀ q, ¬ Step env permits p q) :
    p.pending = [] := by
  obtain ⟨h, waiting, running, ended, results⟩ := p
  cases ended with
  | cons e ended =>
    have hstep : Step env permits ⟨h, waiting, running, [] ++ (e.1, e.2) :: ended, results⟩ _ :=
      .collect
    exact absurd hstep (hstuck _)
  | nil =>
    cases running with
    | cons c running =>
      have hstep : Step env permits ⟨h, waiting, [] ++ c :: running, [], results⟩ _ :=
        .finish ⟨0, 0⟩
      exact absurd hstep (hstuck _)
    | nil =>
      cases waiting with
      | cons c waiting =>
        have hstep : Step env permits ⟨h, [] ++ c :: waiting, [], [], results⟩ _ :=
          .acquire hpermits
        exact absurd hstep (hstuck _)
      | nil => rfl

theorem stuck_of_pending (hp : p.pending = []) : ∀ q, ¬ Step env permits p q := by
  intro q hstep
  cases hstep with
  | acquire _ => simp [pending] at hp
  | finish now => simp [pending] at hp
  | collect => simp [pending] at hp

/-! ### What every step keeps -/

/-- A step changes nothing in the host, or puts one copy back and reports it. -/
theorem step_cases (hstep : Step env permits p q) :
    (p.pending.Perm q.pending ∧ q.host = p.host ∧ q.results = p.results) ∨
      ∃ c now, p.pending.Perm (c :: q.pending) ∧
        q.host = (p.host.finishTask (startupTask env now c)).1 ∧
        q.results = p.results ++ [(p.host.finishTask (startupTask env now c)).2] := by
  cases hstep with
  | @acquire h before after running ended results c _ =>
    refine .inl ⟨?_, rfl, rfl⟩
    have hwaiting : (before ++ c :: after).Perm (c :: (before ++ after)) := List.perm_middle
    exact (hwaiting.append_right _).trans List.perm_middle.symm
  | @finish h waiting before after ended results c now =>
    refine .inl ⟨.append_left waiting ?_, rfl, rfl⟩
    have hrunning : (before ++ c :: after).Perm (c :: (before ++ after)) := List.perm_middle
    exact (hrunning.append_right _).trans List.perm_middle.symm
  | @collect h waiting running before after results c now =>
    refine .inr ⟨c, now, ?_, rfl, rfl⟩
    have hended : ((before ++ (c, now) :: after).map (·.1)).Perm
        (c :: (before ++ after).map (·.1)) := List.perm_middle.map _
    exact ((hended.append_left running).trans List.perm_middle).append_left waiting |>.trans
      List.perm_middle

/-- A start of all in its course: some of its contexts are done, and they are all that has changed
    so far. -/
def Course (env : Environment) (h : Host) (cs : List Context) (p : Pool) : Prop :=
  ∃ done, cs.Perm (done ++ p.pending) ∧ Settles env done h p.host ∧
    ∀ now, p.results = done.map fun c => (c.path, (c.prepare env now).outcome)

theorem course_start (env : Environment) (h : Host) (cs : List Context) :
    Course env h cs ⟨h, cs, [], [], []⟩ :=
  ⟨[], by simp [pending], .nil env h, fun _ => rfl⟩

theorem Course.step (hs : Startable env h cs) (hp : Course env h cs p)
    (hstep : Step env permits p q) : Course env h cs q := by
  obtain ⟨done, hperm, hdone, hresults⟩ := hp
  rcases step_cases hstep with ⟨hpending, hhost, hsame⟩ | ⟨c, now, hpending, hhost, hreported⟩
  · refine ⟨done, hperm.trans (hpending.append_left done), ?_, ?_⟩
    · rw [hhost]
      exact hdone
    · rw [hsame]
      exact hresults
  · have hperm' : cs.Perm (done ++ c :: q.pending) := hperm.trans (hpending.append_left done)
    have hsplit : cs.Perm ((done ++ [c]) ++ q.pending) := by
      rw [List.append_assoc]
      exact hperm'
    have hnodup : ((done ++ [c]).map (·.path)).Nodup := by
      have hall := (hsplit.map (·.path)).nodup_iff.1 hs.nodup
      rw [List.map_append] at hall
      exact (List.nodup_append.1 hall).1
    have hc : c ∈ cs := hperm'.mem_iff.2 (by simp)
    -- the context is still the one that was read, so its copy is put back
    have hcurrent : p.host.contexts.get? c.path = some c :=
      hs.current_of_settles hperm' hdone (by simp)
    have hfinish := finishTask_of_current hcurrent (hs.quiet c hc now)
    rw [hfinish] at hhost hreported
    refine ⟨done ++ [c], hsplit, ?_, fun later => ?_⟩
    · rw [hhost]
      exact hdone.append (.settle p.host env c now) hnodup
    · obtain ⟨houtcome, -, -⟩ := Context.prepare_anytime c env now later
      rw [hreported, hresults later, List.map_append, List.map_cons, List.map_nil, houtcome]

theorem Course.steps (hs : Startable env h cs) (hp : Course env h cs p)
    (hsteps : Steps env permits p q) : Course env h cs q := by
  induction hsteps with
  | refl => exact hp
  | tail _ hstep ih => exact ih.step hs hstep

/-- In the end everything is done. -/
theorem Course.settles (hp : Course env h cs p) (hpending : p.pending = []) :
    Settles env cs h p.host ∧
      ∀ now, p.results.Perm (cs.map fun c => (c.path, (c.prepare env now).outcome)) := by
  obtain ⟨done, hperm, hdone, hresults⟩ := hp
  rw [hpending, List.append_nil] at hperm
  refine ⟨hdone.perm hperm.symm, fun now => ?_⟩
  rw [hresults now]
  exact (hperm.map _).symm

/-! ### One of the ways -/

/-- The preparations get their permits one after the other, and each copy is put back at once. -/
theorem steps_finishTasks (hpermits : 0 < permits) (h : Host) (cs : List Context) (now : Instant)
    (results : List StartupResult) :
    Steps env permits ⟨h, cs, [], [], results⟩
      ⟨(h.finishTasks (cs.map (startupTask env now))).1, [], [], [],
        results ++ (h.finishTasks (cs.map (startupTask env now))).2⟩ := by
  induction cs generalizing h results with
  | nil =>
    have hsame : results ++ (h.finishTasks []).2 = results := List.append_nil results
    show Steps env permits _ ⟨h, [], [], [], results ++ (h.finishTasks []).2⟩
    rw [hsame]
    exact .refl
  | cons c cs ih =>
    let ended := h.finishTask (startupTask env now c)
    have hacquire : Step env permits ⟨h, [] ++ c :: cs, [], [], results⟩
        ⟨h, [] ++ cs, [c], [], results⟩ := .acquire hpermits
    have hfinish : Step env permits ⟨h, cs, [] ++ [c], [], results⟩
        ⟨h, cs, [] ++ [], [(c, now)], results⟩ := .finish now
    have hcollect : Step env permits ⟨h, cs, [], [] ++ [(c, now)], results⟩
        ⟨ended.1, cs, [], [] ++ [], results ++ [ended.2]⟩ := .collect
    have hrest := ih ended.1 (results ++ [ended.2])
    rw [List.append_assoc] at hrest
    exact .head hacquire (.head hfinish (.head hcollect hrest))

end Pool

namespace Host

variable {h other : Host} {m : Machine} {cs : List Context} {permits : Nat}

/-! ### A start of all -/

/-- The pool of a start of all, before anything has happened. -/
def pool (h : Host) : Pool := ⟨h.tick, h.pending, [], [], []⟩

/-- A start of all on so many permits may end with this host and report these results. -/
def Starts (h : Host) (m : Machine) (permits : Nat) (outcome : Host × List StartupResult) :
    Prop :=
  ∃ p, Pool.Steps (h.environment m) permits h.pool p ∧
    (∀ q, ¬ Pool.Step (h.environment m) permits p q) ∧
    outcome = (p.host, sortResults p.results)

/-- Every context is stored under its own path, and the processors that a start of all runs do not
    call the host. -/
structure Undisturbed (h : Host) (m : Machine) : Prop where
  own : ∀ p c, h.contexts.get? p = some c → c.path = p
  quiet : ∀ c ∈ h.pending, (h.preparationOf m c).calls = []

theorem undisturbed_of_quiet (hk : h.Keyed) (hq : h.Quiet) (m : Machine) : h.Undisturbed m := by
  have hown : ∀ p c, h.contexts.get? p = some c → c.path = p := fun _ _ => hk.context_path
  refine ⟨hown, fun c hc => ?_⟩
  exact calls_preparationOf hq (hq.instances ((mem_pending_iff hown).1 hc).1) m

theorem Undisturbed.startable (hu : h.Undisturbed m) :
    Startable (h.environment m) h h.pending where
  nodup := nodup_paths_pending hu.own
  current c hc := ((mem_pending_iff hu.own).1 hc).1
  pending c hc := ((mem_pending_iff hu.own).1 hc).2
  quiet c hc now := by
    obtain ⟨-, hcalls, -⟩ := Context.prepare_anytime c (h.environment m) h.supply.now now
    rw [hcalls]
    exact hu.quiet c hc

/-- Results of different paths have one order. -/
theorem sortResults_eq {results sorted : List StartupResult} (hperm : results.Perm sorted)
    (hsorted : (sorted.map (·.1)).Pairwise (· < ·)) : sortResults results = sorted := by
  have hsame : (sortResults results).Perm sorted := (List.mergeSort_perm ..).trans hperm
  have hmerged : (sortResults results).Pairwise fun a b => a.1.text ≤ b.1.text := by
    refine (List.pairwise_mergeSort (fun a b c hab hbc => ?_) (fun a b => ?_) results).imp
      fun {a b} hle => of_decide_eq_true hle
    · exact decide_eq_true (String.le_trans (of_decide_eq_true hab) (of_decide_eq_true hbc))
    · rcases String.le_total a.1.text b.1.text with hle | hle <;> simp [hle]
  have hpaths : sorted.Pairwise fun a b => a.1.text ≤ b.1.text :=
    (List.pairwise_map.1 hsorted).imp fun {a b} hlt => String.not_lt.1 fun hgt =>
      ContextPath.lt_irrefl a.1 (ContextPath.lt_trans hlt hgt)
  refine hsame.eq_of_pairwise (fun a b ha hb hab hba => ?_) hmerged hpaths
  -- no path comes twice
  have hnodup := ContextPath.nodup_of_sorted hsorted
  exact List.inj_on_of_nodup_map hnodup (hsame.mem_iff.1 ha) hb
    (ContextPath.ext_text (String.le_antisymm hab hba))

/-- What comes out of a start of all. -/
theorem Starts.settles {outcome : Host × List StartupResult} (hu : h.Undisturbed m)
    (hpermits : 0 < permits) (ho : h.Starts m permits outcome) :
    Settles (h.environment m) h.pending h outcome.1 ∧
      outcome.2 = h.pending.map fun c => (c.path, (h.preparationOf m c).outcome) := by
  obtain ⟨p, hsteps, hstuck, rfl⟩ := ho
  have hs := hu.startable
  have htick : Startable (h.environment m) h.tick h.pending :=
    ⟨hs.nodup, hs.current, hs.pending, hs.quiet⟩
  obtain ⟨hsettles, hresults⟩ := ((Pool.course_start _ _ _).steps htick hsteps).settles
    (Pool.pending_of_stuck hpermits hstuck)
  refine ⟨hsettles.of_eq rfl rfl, sortResults_eq (hresults h.supply.now) ?_⟩
  rw [List.map_map]
  exact sorted_paths_pending hu.own

/-! ### The order does not matter -/

/-- What a start of all should come to. -/
structure StartsEach (h : Host) (m : Machine) (outcome : Host × List StartupResult) : Prop where
  /-- Each context that waits is reported once, with the outcome of its own preparation. -/
  results : outcome.2 = h.pending.map fun c => (c.path, (h.preparationOf m c).outcome)
  /-- It comes out as its own preparation leaves it. -/
  prepared : ∀ c ∈ h.pending, (outcome.1.contexts.get? c.path).map (·.undated) =
    some (h.preparationOf m c).context.undated
  untouched : ∀ p c, h.contexts.get? p = some c → ¬ c.IsPending →
    outcome.1.contexts.get? p = some c
  /-- The contexts might as well be prepared one by one, in any order. -/
  sequential : ∀ paths, paths.Perm (h.pending.map (·.path)) →
    outcome.1.SameUpToTimes (h.prepareAll m paths)

theorem Starts.startsEach {outcome : Host × List StartupResult} (hu : h.Undisturbed m)
    (hpermits : 0 < permits) (ho : h.Starts m permits outcome) : h.StartsEach m outcome := by
  obtain ⟨hsettles, hresults⟩ := ho.settles hu hpermits
  constructor
  case results => exact hresults
  case prepared => exact fun c hc => hsettles.prepared c hc _
  case untouched =>
    intro p c hc hnot
    have hout : p ∉ h.pending.map (·.path) := by
      intro hin
      obtain ⟨c', hc', rfl⟩ := List.mem_map.1 hin
      obtain ⟨hcurrent, hpending⟩ := (mem_pending_iff hu.own).1 hc'
      obtain rfl := Option.some.inj (hc.symm.trans hcurrent)
      exact hnot hpending
    rw [hsettles.kept p hout, hc]
  case sequential =>
    intro paths hpaths
    obtain ⟨cs, rfl, hcs⟩ :=
      (congrFun (congrFun (List.eq_map_comp_perm _) paths) h.pending).mpr hpaths
    have hstartable : Startable (h.environment m) h cs := hu.startable.perm hcs
    exact hsettles.sameUpToTimes ((settles_prepareAll hstartable).perm hcs)

theorem starts_startAll (h : Host) (m : Machine) (hpermits : 0 < permits) :
    h.Starts m permits (h.startAll m) := by
  let ended := h.tick.finishTasks (h.startupTasks m)
  exact ⟨⟨ended.1, [], [], [], [] ++ ended.2⟩,
    Pool.steps_finishTasks hpermits h.tick h.pending h.supply.now [], Pool.stuck_of_pending rfl,
    rfl⟩

/-- Two starts of all report the same of a path and make the same of it but for the times. -/
structure SameAt (path : ContextPath) (outcome outcome' : Host × List StartupResult) : Prop where
  result : ∀ result, (path, result) ∈ outcome.2 ↔ (path, result) ∈ outcome'.2
  context : (outcome.1.contexts.get? path).map (·.undated) =
    (outcome'.1.contexts.get? path).map (·.undated)
  products : (outcome.1.contexts.get? path).bind (·.products?) =
    (outcome'.1.contexts.get? path).bind (·.products?)

theorem StartsEach.mem_results_iff {outcome : Host × List StartupResult} (hu : h.Undisturbed m)
    (ho : h.StartsEach m outcome) {c : Context} (hc : c ∈ h.pending)
    {result : Except HostError Unit} :
    (c.path, result) ∈ outcome.2 ↔ result = (h.preparationOf m c).outcome := by
  rw [ho.results, List.mem_map]
  constructor
  · rintro ⟨c', hc', heq⟩
    obtain ⟨hpath, hresult⟩ := Prod.mk.inj heq
    have hnodup := nodup_paths_pending hu.own
    obtain rfl := List.inj_on_of_nodup_map hnodup hc' hc hpath
    exact hresult.symm
  · rintro rfl
    exact ⟨c, hc, rfl⟩

/-- A host that holds the same context starts it in the same way, whatever else it holds. -/
theorem StartsEach.sameAt {outcome outcome' : Host × List StartupResult} (hu : h.Undisturbed m)
    (hu' : other.Undisturbed m) (henv : other.environment m = h.environment m) {c : Context}
    (hc : c ∈ h.pending) (hother : other.contexts.get? c.path = some c)
    (ho : h.StartsEach m outcome) (ho' : other.StartsEach m outcome') :
    SameAt c.path outcome outcome' := by
  have hc' : c ∈ other.pending :=
    (mem_pending_iff hu'.own).2 ⟨hother, ((mem_pending_iff hu.own).1 hc).2⟩
  have hprep : other.preparationOf m c = c.prepare (h.environment m) other.supply.now := by
    unfold preparationOf
    rw [henv]
  obtain ⟨houtcome, -, hcontext⟩ :=
    Context.prepare_anytime c (h.environment m) h.supply.now other.supply.now
  have hsame : (outcome.1.contexts.get? c.path).map (·.undated) =
      (outcome'.1.contexts.get? c.path).map (·.undated) := by
    rw [ho.prepared c hc, ho'.prepared c hc', hprep, hcontext]
    rfl
  refine ⟨fun result => ?_, hsame, Context.products?_of_undated_eq hsame⟩
  rw [ho.mem_results_iff hu hc, ho'.mem_results_iff hu' hc', hprep, houtcome]
  rfl

/-- Every start of all comes to an end, however many permits there are. What it comes to is the
    same whichever preparation gets a permit when and ends when: one result for each context that
    was deployed or had failed, in the order of the paths, and each of these contexts prepared
    as on its own. So the contexts might as well be prepared one by one, and each of them comes
    out as in any other host that lends it the same. -/
theorem startAll_order_independent (hu : h.Undisturbed m) (hpermits : 0 < permits) :
    (WellFounded fun q p => Pool.Step (h.environment m) permits p q) ∧
      h.Starts m permits (h.startAll m) ∧
      (h.pending.map (·.path)).Pairwise (· < ·) ∧
      (∀ c, c ∈ h.pending ↔ h.contexts.get? c.path = some c ∧ c.IsPending) ∧
      ∀ outcome, h.Starts m permits outcome →
        h.StartsEach m outcome ∧
          ∀ (other : Host) (c : Context), other.Undisturbed m → other.settings = h.settings →
            other.registry = h.registry → c ∈ h.pending →
            other.contexts.get? c.path = some c → ∀ more outcome', 0 < more →
            other.Starts m more outcome' → SameAt c.path outcome outcome' := by
  refine ⟨Pool.wellFounded_step _ _, starts_startAll h m hpermits, sorted_paths_pending hu.own,
    fun c => mem_pending_iff hu.own, fun outcome ho => ?_⟩
  have heach := ho.startsEach hu hpermits
  refine ⟨heach, fun other c hu' hsettings hregistry hc hother more outcome' hmore ho' => ?_⟩
  have henv : other.environment m = h.environment m := by
    unfold environment
    rw [hsettings, hregistry]
  exact heach.sameAt hu hu' henv hc hother (ho'.startsEach hu' hmore)

/-- The context path `/B`. -/
def pathB : ContextPath := ⟨"/B", by decide⟩

/-- A host with an application at `/A` and one at `/B` whose base does not exist. -/
def mixedHost : Host :=
  ((defaultHost.deploy (.ofBase "/B" "/none")).1.deploy (.ofBase "/A" "/srv/a")).1

theorem calm_mixedHost : mixedHost.Calm :=
  (calm_defaultHost.deploy _).deploy _

/-- The one that fails does not keep the other from being started, as it is without it. -/
theorem startAll_order_independent_mixed :
    mixedHost.Undisturbed Sample.machine ∧ 0 < 1 ∧
      (mixedHost.startAll Sample.machine).2.map (fun r => (r.1.text, r.2.isOk)) =
        [("/A", true), ("/B", false)] ∧
      (mixedHost.startAll Sample.machine).1.SameUpToTimes
        (mixedHost.prepareAll Sample.machine [pathB, Sample.pathA]) ∧
      SameAt Sample.pathA (mixedHost.startAll Sample.machine)
        ((mixedHost.undeploy pathB).1.startAll Sample.machine) := by
  let alone := (mixedHost.undeploy pathB).1
  have hcalm : alone.Calm := calm_mixedHost.undeploy pathB
  have hu : mixedHost.Undisturbed Sample.machine :=
    undisturbed_of_quiet calm_mixedHost.keyed calm_mixedHost.quiet _
  have hu' : alone.Undisturbed Sample.machine := undisturbed_of_quiet hcalm.keyed hcalm.quiet _
  have hpermits : 0 < 1 := Nat.one_pos
  obtain ⟨-, hstarts, -, hpending, hall⟩ := startAll_order_independent hu hpermits
  obtain ⟨heach, hisolated⟩ := hall _ hstarts
  have hstate : (mixedHost.contexts.get? Sample.pathA).map (·.state) = some .deployed := by
    decide +kernel
  obtain ⟨c, hc, hdeployed⟩ := Option.map_eq_some_iff.1 hstate
  have hpath : c.path = Sample.pathA := calm_mixedHost.keyed.context_path hc
  have hkept : alone.contexts.get? Sample.pathA = some c := by
    rcases tables_undeploy mixedHost pathB with hsame | ⟨hcontexts, -⟩
    · show (mixedHost.undeploy pathB).1.contexts.get? Sample.pathA = some c
      rw [hsame, hc]
    · show (mixedHost.undeploy pathB).1.contexts.get? Sample.pathA = some c
      rw [hcontexts, PathTable.get?_erase, if_neg (by decide), hc]
  have hsettings : alone.settings = mixedHost.settings := settings_undeploy ..
  have hregistry : alone.registry = mixedHost.registry := registry_undeploy ..
  rw [← hpath] at hc hkept
  have hsame := hisolated alone c hu' hsettings hregistry ((hpending c).2 ⟨hc, .inl hdeployed⟩)
    hkept 1 _ hpermits (starts_startAll alone Sample.machine hpermits)
  rw [hpath] at hsame
  refine ⟨hu, hpermits, ?_, heach.sequential _ ?_, hsame⟩
  · rw [heach.results, List.map_map]
    decide +kernel
  · have hpaths : mixedHost.pending.map (·.path) = [Sample.pathA, pathB] := by
      decide +kernel
    rw [hpaths]
    exact .swap _ _ []

end Host

end Hosting
