import Hosting.Proofs.Context.Calls

/-! # Preparations that fail

    A preparation works on a setup of its own. Its processors may change the namespace, the
    search path and the attributes there, and whatever they have done by the time one of them
    fails is dropped with the setup. All that a failure leaves on the context is its state,
    and a preparation does not ask why an earlier one has failed.

    - `context_of_prepare_error`: a preparation that fails was refused, or has changed the
      state only.
    - `Retried`: failing preparations one after the other, each in surroundings of its own.
    - `prepare_as_first`: the next preparation goes as if it were the first.
-/

namespace Hosting.Context

/-! ### One failure -/

/-- A preparation that is not refused finds the base first. -/
theorem IsPending.prepare_eq {c : Context} (hc : c.IsPending) (env : Environment)
    (now : Instant) :
    c.prepare env now =
      match c.establish env with
      | .error e => ⟨c.markFailed e, [], .error e⟩
      | .ok base => c.prepareAt env now base := by
  cases he : c.establish env <;> rcases hc with hs | ⟨reason, hs⟩ <;>
    simp only [prepare, hs, he]

/-- A pending context is prepared as it would be if it had not failed before. -/
theorem prepare_markFailed {c : Context} (hc : c.IsPending) (e : HostError) (env : Environment)
    (now : Instant) : (c.markFailed e).prepare env now = c.prepare env now := by
  have hfailed : (c.markFailed e).IsPending := .inr ⟨e.message, rfl⟩
  rw [hfailed.prepare_eq, hc.prepare_eq]
  -- nothing on the way reads the state, and both ends set it
  have hbase : (c.markFailed e).establish env = c.establish env := rfl
  rw [hbase]
  cases c.establish env with
  | error cause => rfl
  | ok base => rfl

theorem not_isPending {c : Context}
    (hs : c.state = .starting ∨ c.state = .started ∨ c.state = .stopped) : ¬ c.IsPending := by
  rintro (hp | ⟨reason, hp⟩) <;> rw [hp] at hs <;> simp at hs

/-- A preparation that fails was refused and has changed nothing, or it has raised the error itself
    and has changed the state, which tells the error. -/
theorem context_of_prepare_error {c : Context} {env : Environment} {now : Instant} {e : HostError}
    (he : (c.prepare env now).outcome = .error e) :
    (¬ c.IsPending ∧ (c.prepare env now).context = c) ∨
      (c.IsPending ∧ (c.prepare env now).context = c.markFailed e) := by
  rcases prepare_cases c env now with ⟨hs, h⟩ | ⟨hs, h⟩ | ⟨hc, cause, calls, -, h⟩ |
    ⟨-, list, setup, calls, h⟩
  · refine .inl ⟨not_isPending ?_, by rw [h]⟩
    rcases hs with hs | hs
    · exact .inl hs
    · exact .inr (.inl hs)
  · exact .inl ⟨not_isPending (.inr (.inr hs)), by rw [h]⟩
  · rw [h] at he ⊢
    obtain rfl := Except.error.inj he
    exact .inr ⟨hc, rfl⟩
  · rw [h] at he
    cases he

/-! ### Failures one after the other -/

/-- The second context is what preparations leave of the first that have all failed. Each of them
    has its own time and surroundings: files, settings and processors. -/
inductive Retried : Context → Context → Prop where
  | refl (c : Context) : Retried c c
  | fail {c c' : Context} {env : Environment} {now : Instant} {e : HostError} :
      (c.prepare env now).outcome = .error e → Retried (c.prepare env now).context c' →
      Retried c c'

/-- One failure is not seen by the next preparation. -/
theorem prepare_of_prepare_error {c : Context} {env : Environment} {now : Instant} {e : HostError}
    (he : (c.prepare env now).outcome = .error e) (env' : Environment) (later : Instant) :
    (c.prepare env now).context.prepare env' later = c.prepare env' later := by
  rcases context_of_prepare_error he with ⟨-, hsame⟩ | ⟨hc, hfailed⟩
  · rw [hsame]
  · rw [hfailed]
    exact prepare_markFailed hc e env' later

theorem prepare_of_retried {c c' : Context} (hr : Retried c c') (env : Environment)
    (now : Instant) : c'.prepare env now = c.prepare env now := by
  induction hr with
  | refl => rfl
  | fail he _ ih => exact ih.trans (prepare_of_prepare_error he env now)

/-- Failures leave everything but the state as it was. -/
theorem retried_eq {c c' : Context} (hr : Retried c c') : c' = { c with state := c'.state } := by
  induction hr with
  | refl => rfl
  | fail he _ ih =>
    rcases context_of_prepare_error he with ⟨-, hsame⟩ | ⟨-, hfailed⟩
    · rw [hsame] at ih
      exact ih
    · rw [hfailed] at ih
      exact ih

/-- A preparation that is not refused and fails, whatever its processors have done by then, changes
    nothing on the context but the state, which becomes failed with the text of the error.
    After any number of failing preparations, another one ends as it would have ended
    without them: with the same outcome and the same calls to the host, and with the same
    context, processors, libraries, namespace and attributes among the rest. -/
theorem prepare_as_first (c : Context) :
    (∀ env now e, c.IsPending → (c.prepare env now).outcome = .error e →
        (c.prepare env now).context = { c with state := .failed e.message }) ∧
      ∀ c', Retried c c' → c' = { c with state := c'.state } ∧
        ∀ env now, c'.prepare env now = c.prepare env now := by
  refine ⟨fun env now e hc he => ?_, fun c' hr => ⟨retried_eq hr, prepare_of_retried hr⟩⟩
  rcases context_of_prepare_error he with ⟨hnot, -⟩ | ⟨-, hfailed⟩
  · exact absurd hc hnot
  · exact hfailed

/-- A processor that leaves a route, a library and an attribute behind, and then fails where there
    is no directory `/srv/a/static`. -/
def demanding : Processor where
  name := "demanding"
  configure view setup :=
    { setup :=
        { resources := setup.resources.registerAlias "/x/" "/"
          libraries := setup.libraries.push ⟨⟨"/srv/a"⟩, .directory⟩
          attributes := setup.attributes.insert "tried" "yes" }
      calls := []
      failure :=
        if view.machine.isDirectory ⟨"/srv/a/static"⟩ then none
        else some (.invalid "nothing to serve") }

/-- The new context for the directory of the small machine, with this processor. -/
def demandingContext : Context :=
  { sampleContext with instances := [demanding] }

/-- The surroundings of the small host, with these files. -/
def surroundings (files : FileTree) : Environment :=
  Sample.host.environment { Sample.machine with files }

/-- The directory of the context, with nothing in it. -/
def emptyDirectory : FileTree :=
  (FileTree.empty.put ["srv"] .directory).put ["srv", "a"] .directory

/-- The context after it was prepared without any files and with an empty directory. -/
def twiceFailed : Context :=
  let once := (demandingContext.prepare (surroundings .empty) ⟨1, 0⟩).context
  (once.prepare (surroundings emptyDirectory) ⟨2, 0⟩).context

/-- It fails for its base first and by its processor then, and is prepared in the end as if it were
    new. -/
theorem prepare_as_first_demanding :
    demandingContext.IsPending ∧
      (∃ e, (demandingContext.prepare (surroundings emptyDirectory) ⟨2, 0⟩).outcome = .error e ∧
        (demandingContext.prepare (surroundings emptyDirectory) ⟨2, 0⟩).context =
          { demandingContext with state := .failed e.message }) ∧
      Retried demandingContext twiceFailed ∧
      let full := surroundings Sample.machine.files
      (twiceFailed.prepare full ⟨3, 0⟩).outcome = .ok () ∧
        (twiceFailed.prepare full ⟨3, 0⟩).context.attributes.get? "tried" = some "yes" ∧
        twiceFailed.prepare full ⟨3, 0⟩ = demandingContext.prepare full ⟨3, 0⟩ := by
  obtain ⟨hstate, hagain⟩ := prepare_as_first demandingContext
  have hnew : demandingContext.IsPending := .inl rfl
  have hfails : ∃ e,
      (demandingContext.prepare (surroundings emptyDirectory) ⟨2, 0⟩).outcome = .error e :=
    ⟨_, rfl⟩
  obtain ⟨e, he⟩ := hfails
  have htwice : Retried demandingContext twiceFailed := .fail rfl (.fail rfl (.refl _))
  obtain ⟨-, hsame⟩ := hagain twiceFailed htwice
  exact ⟨hnew, ⟨e, he, hstate _ _ e hnew he⟩, htwice, rfl, rfl, hsame _ _⟩

end Hosting.Context
