import Hosting.Proofs.Context.Lifecycle
import Hosting.Proofs.Host.Runs
import Mathlib.Data.List.Induction

/-! # Calls on a context

    A context is changed by its setters, by preparations, and by the mark that ends its life.
    The calls may come in any order, and each preparation may see surroundings of its own.

    - `Call`, `call`, `callAll`: what may be called, and what becomes of the context.
    - `Transition`, `transition_call`: the changes of the state that a call can make.
    - `call_of_started`, `callAll_of_started`: a started context is frozen until it is marked.
    - `IsSound`: what holds of a context between calls.
    - `lifecycle_of_calls`: what holds after any calls on a new context, and of the next one.
-/

namespace Hosting.Context

/-! ### Calls -/

/-- What a setter is called with. -/
inductive Setting where
  | instances (processors : List Processor)
  | identifiers (names : List String)
  | extraClasspath (text : String)
  | whiteList (list : WhiteList)
  | route (source target : String)

/-- A call on a context. -/
inductive Call where
  | set (s : Setting)
  | prepare (env : Environment) (now : Instant)
  | markStopped

/-- The setter for a setting. -/
def set (c : Context) : Setting → Except HostError Context
  | .instances processors => c.setInstances processors
  | .identifiers names => c.setIdentifiers names
  | .extraClasspath text => c.setExtraClasspath text
  | .whiteList list => c.setWhiteList list
  | .route source target => c.registerAlias source target

/-- The context after a call, and how the call went. A setter that is refused leaves the context
    as it was. -/
def call (c : Context) : Call → Context × Except HostError Unit
  | .set s =>
    match c.set s with
    | .ok changed => (changed, .ok ())
    | .error e => (c, .error e)
  | .prepare env now => ((c.prepare env now).context, (c.prepare env now).outcome)
  | .markStopped => (c.markStopped, .ok ())

/-- The context after calls, one after the other. -/
def callAll (c : Context) (calls : List Call) : Context :=
  calls.foldl (fun c k => (c.call k).1) c

theorem callAll_append (c : Context) (calls more : List Call) :
    c.callAll (calls ++ more) = (c.callAll calls).callAll more :=
  List.foldl_append

theorem callAll_concat (c : Context) (calls : List Call) (k : Call) :
    c.callAll (calls ++ [k]) = ((c.callAll calls).call k).1 :=
  callAll_append c calls [k]

/-! ### Setters -/

/-- What a setter changes where it is not refused. -/
def Setting.edit (c : Context) : Setting → Context
  | .instances processors => { c with instances := processors }
  | .identifiers names => { c with identifiers := names }
  | .extraClasspath text => { c with extraClasspath := some text }
  | .whiteList list => { c with whiteList := list }
  | .route source target => { c with resources := c.resources.registerAlias source target }

theorem set_eq_change (c : Context) (s : Setting) : c.set s = c.change s.edit := by
  cases s <;> rfl

/-- A setter makes its change, or is refused. -/
theorem set_cases (c : Context) (s : Setting) :
    c.set s = .ok (s.edit c) ∨ ∃ e, c.set s = .error e := by
  rw [set_eq_change]
  unfold change
  cases c.checkMutable with
  | ok _ => exact .inl rfl
  | error e => exact .inr ⟨e, rfl⟩

/-- All setters are refused by a started context, in the same words. -/
theorem set_of_started {c : Context} (hc : c.state = .started) (s : Setting) :
    c.set s = .error (.alreadyStarted c.path.text) := by
  rw [set_eq_change]
  unfold change checkMutable
  rw [hc]
  rfl

/-- No setter brings a context any further. -/
theorem state_call_set (c : Context) (s : Setting) : (c.call (.set s)).1.state = c.state := by
  unfold call
  rcases set_cases c s with hok | ⟨e, he⟩
  · simp only [hok]
    cases s <;> rfl
  · simp only [he]

/-! ### Changes of the state -/

/-- What a call may do to the state. -/
inductive Transition : Call → ContextState → ContextState → Prop where
  | stay {k : Call} (s : ContextState) : k ≠ .markStopped → Transition k s s
  /-- A preparation of a context that is deployed or has failed. -/
  | prepared (env : Environment) (now : Instant) {s s' : ContextState} :
      (s = .deployed ∨ ∃ reason, s = .failed reason) →
      (s' = .started ∨ ∃ reason, s' = .failed reason) → Transition (.prepare env now) s s'
  | stopped (s : ContextState) : Transition .markStopped s .stopped

theorem transition_call (c : Context) (k : Call) : Transition k c.state (c.call k).1.state := by
  cases k with
  | set s =>
    rw [state_call_set]
    exact .stay _ (by simp)
  | prepare env now =>
    show Transition _ c.state (c.prepare env now).context.state
    rcases prepare_cases c env now with ⟨-, h⟩ | ⟨-, h⟩ | ⟨hpending, e, calls, -, h⟩ |
      ⟨hpending, list, setup, calls, h⟩
    · rw [h]
      exact .stay _ (by simp)
    · rw [h]
      exact .stay _ (by simp)
    · rw [h]
      exact .prepared env now hpending (.inr ⟨e.message, rfl⟩)
    · rw [h]
      exact .prepared env now hpending (.inl rfl)
  | markStopped => exact .stopped _

/-- Nothing leads out of the last state. -/
theorem Transition.of_stopped {k : Call} {s : ContextState} (ht : Transition k .stopped s) :
    s = .stopped := by
  cases ht with
  | stay => rfl
  | prepared env now hpending _ => rcases hpending with h | ⟨reason, h⟩ <;> cases h
  | stopped => rfl

/-- No call ends with the context being started. -/
theorem Transition.ne_starting {k : Call} {s s' : ContextState} (ht : Transition k s s')
    (hs : s ≠ .starting) : s' ≠ .starting := by
  cases ht with
  | stay => exact hs
  | prepared env now _ hended =>
    rcases hended with h | ⟨reason, h⟩ <;> rw [h] <;> simp
  | stopped => simp

theorem prepare_of_stopped {c : Context} (hc : c.state = .stopped) (env : Environment)
    (now : Instant) :
    c.call (.prepare env now) = (c, .error (.noSuchContext c.path.text)) := by
  unfold call prepare
  rw [hc]

/-! ### Started contexts -/

/-- A started context refuses every call but its last, and stays exactly as it is. -/
theorem call_of_started {c : Context} (hc : c.state = .started) {k : Call}
    (hk : k ≠ .markStopped) : c.call k = (c, .error (.alreadyStarted c.path.text)) := by
  cases k with
  | set s =>
    unfold call
    simp only [set_of_started hc s]
  | prepare env now =>
    unfold call prepare
    rw [hc]
  | markStopped => exact absurd rfl hk

/-- So it does however many calls come. -/
theorem callAll_of_started {c : Context} (hc : c.state = .started) {calls : List Call}
    (hcalls : .markStopped ∉ calls) : c.callAll calls = c := by
  induction calls with
  | nil => rfl
  | cons k calls ih =>
    rw [List.mem_cons, not_or] at hcalls
    have hfirst : (c.call k).1 = c := by
      rw [call_of_started hc (Ne.symm hcalls.1)]
    show (c.call k).1.callAll calls = c
    rw [hfirst]
    exact ih hcalls.2

/-- A call that starts a context is a preparation that succeeds. -/
theorem prepare_of_call_started {c : Context} {k : Call} (hc : c.state ≠ .started)
    (hstarted : (c.call k).1.state = .started) :
    ∃ env now, k = .prepare env now ∧ (c.prepare env now).outcome = .ok () := by
  cases k with
  | set s =>
    rw [state_call_set] at hstarted
    exact absurd hstarted hc
  | prepare env now =>
    refine ⟨env, now, rfl, ?_⟩
    have hprepared : (c.prepare env now).context.state = .started := hstarted
    -- where the preparation is refused or fails, the context is not started after it
    rcases prepare_cases c env now with ⟨-, h⟩ | ⟨-, h⟩ | ⟨-, e, calls, -, h⟩ | ⟨-, _, _, _, h⟩
    · rw [h] at hprepared
      exact absurd hprepared hc
    · rw [h] at hprepared
      exact absurd hprepared hc
    · rw [h] at hprepared
      cases hprepared
    · rw [h]
  | markStopped => cases hstarted

/-! ### What holds between calls -/

/-- What holds of a context between calls. -/
structure IsSound (c : Context) : Prop where
  not_starting : c.state ≠ .starting
  products : c.products?.isSome = true ↔ c.state = .started
  /-- A started context knows since when it is. -/
  startedAt : c.state = .started → c.startedAt.isSome = true

theorem isSound_of_state_ne {c : Context} (hstarting : c.state ≠ .starting)
    (hstarted : c.state ≠ .started) : c.IsSound := by
  refine ⟨hstarting, ?_, fun hs => absurd hs hstarted⟩
  rw [products?_isSome_iff]
  exact ⟨fun h => h.1, fun h => absurd h hstarted⟩

theorem isSound_of_started {c : Context} (hc : c.state = .started)
    (hprocessors : c.processors.isSome = true) (hstartedAt : c.startedAt.isSome = true) :
    c.IsSound := by
  refine ⟨by rw [hc]; simp, ?_, fun _ => hstartedAt⟩
  rw [products?_isSome_iff]
  exact ⟨fun h => h.1, fun h => ⟨h, hprocessors⟩⟩

theorem IsSound.call {c : Context} (hc : c.IsSound) (k : Call) : (c.call k).1.IsSound := by
  by_cases hstarted : (c.call k).1.state = .started
  · by_cases hbefore : c.state = .started
    · -- it was started before, so nothing has changed
      have hk : k ≠ .markStopped := by
        rintro rfl
        cases hstarted
      rw [call_of_started hbefore hk]
      exact hc
    · obtain ⟨env, now, rfl, hok⟩ := prepare_of_call_started hbefore hstarted
      show (c.prepare env now).context.IsSound
      rcases prepare_cases c env now with ⟨-, h⟩ | ⟨-, h⟩ | ⟨-, e, calls, -, h⟩ |
        ⟨-, list, setup, calls, h⟩
      · rw [h] at hok
        cases hok
      · rw [h] at hok
        cases hok
      · rw [h] at hok
        cases hok
      · rw [h]
        exact isSound_of_started rfl rfl rfl
  · exact isSound_of_state_ne ((transition_call c k).ne_starting hc.not_starting) hstarted

theorem IsSound.callAll {c : Context} (hc : c.IsSound) (calls : List Call) :
    (c.callAll calls).IsSound := by
  induction calls generalizing c with
  | nil => exact hc
  | cons k calls ih => exact ih (hc.call k)

/-! ### New contexts -/

/-- A context as it is made, with a base only or for a descriptor. -/
inductive IsNew : Context → Prop where
  | ofBase (id : DeploymentId) (now : Instant) (path : ContextPath) (resourceBase : String) :
      IsNew (ofBase id now path resourceBase)
  | ofDescriptor {id : DeploymentId} {now : Instant} {d : Descriptor} {c : Context} :
      ofDescriptor id now d = .ok c → IsNew c

theorem IsNew.state {c : Context} (hc : c.IsNew) : c.state = .deployed := by
  cases hc with
  | ofBase => rfl
  | ofDescriptor h =>
    obtain ⟨-, -, -, hstate, -⟩ := ofDescriptor_spec h
    exact hstate

theorem IsNew.isSound {c : Context} (hc : c.IsNew) : c.IsSound := by
  have hstate := hc.state
  exact isSound_of_state_ne (by rw [hstate]; simp) (by rw [hstate]; simp)

/-- The context was started by one of the calls, and is what that preparation has made of it. -/
def IsStartedBy (c₀ : Context) (calls : List Call) : Prop :=
  ∃ before env now after, calls = before ++ .prepare env now :: after ∧
    ((c₀.callAll before).prepare env now).outcome = .ok () ∧
    c₀.callAll calls = ((c₀.callAll before).prepare env now).context

theorem isStartedBy_of_started {c₀ : Context} (hnew : c₀.state ≠ .started) {calls : List Call}
    (hstarted : (c₀.callAll calls).state = .started) : c₀.IsStartedBy calls := by
  -- from the last call back: it has started the context, or has found it started and left it
  induction calls using List.reverseRecOn with
  | nil => exact absurd hstarted hnew
  | append_singleton calls k ih =>
    have hlast := callAll_concat c₀ calls k
    rw [hlast] at hstarted
    by_cases hbefore : (c₀.callAll calls).state = .started
    · have hk : k ≠ .markStopped := by
        rintro rfl
        cases hstarted
      have hsame : c₀.callAll (calls ++ [k]) = c₀.callAll calls := by
        rw [hlast, call_of_started hbefore hk]
      obtain ⟨before, env, now, after, hsplit, hok, hmade⟩ := ih hbefore
      refine ⟨before, env, now, after ++ [k], ?_, hok, hsame.trans hmade⟩
      rw [hsplit]
      simp
    · obtain ⟨env, now, rfl, hok⟩ := prepare_of_call_started hbefore hstarted
      exact ⟨calls, env, now, [], rfl, hok, hlast⟩

/-! ### The lifecycle -/

/-- What any call does to a context. -/
structure IsLawful (c : Context) : Prop where
  transition (k : Call) : Transition k c.state (c.call k).1.state
  /-- An undeployed context stays so, and is not prepared any more. -/
  stopped : c.state = .stopped → (∀ k, (c.call k).1.state = .stopped) ∧
    ∀ env now, c.call (.prepare env now) = (c, .error (.noSuchContext c.path.text))
  /-- A started context is frozen until it is undeployed. -/
  started : c.state = .started → (∀ k, k ≠ .markStopped →
      c.call k = (c, .error (.alreadyStarted c.path.text))) ∧
    ∀ calls, .markStopped ∉ calls → c.callAll calls = c

theorem isLawful (c : Context) : c.IsLawful := by
  refine ⟨transition_call c, fun hstopped => ⟨fun k => ?_, prepare_of_stopped hstopped⟩,
    fun hstarted => ⟨fun k hk => call_of_started hstarted hk,
      fun calls hcalls => callAll_of_started hstarted hcalls⟩⟩
  have ht := transition_call c k
  rw [hstopped] at ht
  exact ht.of_stopped

/-- After any calls on a new context it is not being started, it has its products exactly while it
    is started, and every further call changes its state along the lifecycle only. Once it is
    started it is what one successful preparation has made of it, and stays exactly that until
    it is undeployed. -/
theorem lifecycle_of_calls {c₀ : Context} (hnew : c₀.IsNew) (calls : List Call) :
    (c₀.callAll calls).IsSound ∧ (c₀.callAll calls).IsLawful ∧
      ((c₀.callAll calls).state = .started → c₀.IsStartedBy calls) := by
  have hstate : c₀.state ≠ .started := by
    rw [hnew.state]
    simp
  exact ⟨hnew.isSound.callAll calls, isLawful _, isStartedBy_of_started hstate⟩

/-- A new context for the directory of the small machine. -/
def sampleContext : Context :=
  ofBase ⟨0⟩ ⟨0, 0⟩ Sample.pathA "/srv/a"

/-- It is prepared, and then a route is added and it is prepared once more. -/
def sampleCalls : List Call :=
  let env := Sample.host.environment Sample.machine
  [.prepare env ⟨1, 0⟩, .set (.route "/x/" "/"), .prepare env ⟨2, 0⟩]

/-- The later calls come too late. -/
theorem lifecycle_of_calls_frozen :
    sampleContext.IsNew ∧ (sampleContext.callAll sampleCalls).state = .started ∧
      (sampleContext.callAll sampleCalls).startedAt = some ⟨1, 0⟩ ∧
      (sampleContext.callAll sampleCalls).IsSound ∧
      sampleContext.IsStartedBy sampleCalls := by
  have hnew : sampleContext.IsNew := .ofBase _ _ _ _
  have hstarted : (sampleContext.callAll sampleCalls).state = .started := by
    rfl
  obtain ⟨hsound, -, hmade⟩ := lifecycle_of_calls hnew sampleCalls
  exact ⟨hnew, hstarted, rfl, hsound, hmade hstarted⟩

end Hosting.Context
