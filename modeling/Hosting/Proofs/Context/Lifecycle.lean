import Hosting.Context.Preparation

/-! # What a preparation can do to a context

    A preparation is refused for a context that is being started, started or stopped.
    Otherwise it ends in one of two ways: the context fails, and only its state says so, or
    it takes over what its processors have made and is started.

    - `ofDescriptor_spec`: what a context has from its descriptor.
    - `prepare_cases`: the four ways in which a preparation ends.
    - `IsSettled`: where a context is when no operation is under way on it. New contexts
      are settled, and a preparation leaves a settled context settled.
-/

namespace Hosting.Context

/-! ### New contexts -/

theorem ofDescriptor_spec {id : DeploymentId} {now : Instant} {d : Descriptor} {c : Context}
    (h : ofDescriptor id now d = .ok c) :
    ContextPath.parse d.contextPath = .ok c.path ∧ c.id = id ∧ c.deployedAt = now ∧
      c.state = .deployed ∧ c.whiteList = .ofOption d.whiteList := by
  unfold ofDescriptor at h
  split at h
  · simp at h
  · next path hpath =>
    obtain rfl := Except.ok.inj h
    exact ⟨hpath, rfl, rfl, rfl, rfl⟩

/-! ### Preparations -/

/-- A preparation changes the context: only the states before it that allow this are left. -/
def IsPending (c : Context) : Prop :=
  c.state = .deployed ∨ ∃ reason, c.state = .failed reason

theorem establish_ne_alreadyStarted {c : Context} {env : Environment} {e : HostError}
    (h : c.establish env = .error e) : ∀ text, e ≠ .alreadyStarted text := by
  -- every error on the way is one about the base or about the file system
  unfold establish BaseResource.establish at h
  simp only at h
  split at h
  · cases h; simp
  · split at h
    · cases h; simp
    · split at h
      · cases h; simp
      · split at h
        · simp at h
        · split at h
          · simp at h
          · cases h; simp

/-- The ways in which a preparation ends: refused twice over, failed, and started. -/
theorem prepare_cases (c : Context) (env : Environment) (now : Instant) :
    ((c.state = .starting ∨ c.state = .started) ∧
        c.prepare env now = ⟨c, [], .error (.alreadyStarted c.path.text)⟩) ∨
      (c.state = .stopped ∧ c.prepare env now = ⟨c, [], .error (.noSuchContext c.path.text)⟩) ∨
      (c.IsPending ∧ ∃ e calls, (∀ text, e ≠ .alreadyStarted text) ∧
        c.prepare env now = ⟨c.markFailed e, calls, .error e⟩) ∨
      (c.IsPending ∧ ∃ list setup calls,
        c.prepare env now = ⟨c.takeOver list setup now, calls, .ok ()⟩) := by
  have hended : c.IsPending → (∃ e calls, (∀ text, e ≠ .alreadyStarted text) ∧
        c.prepare env now = ⟨c.markFailed e, calls, .error e⟩) ∨
      ∃ list setup calls, c.prepare env now = ⟨c.takeOver list setup now, calls, .ok ()⟩ := by
    intro h
    cases hest : c.establish env with
    | error e =>
      refine .inl ⟨e, [], establish_ne_alreadyStarted hest, ?_⟩
      unfold prepare
      rcases h with h | ⟨reason, h⟩ <;> simp only [h, hest]
    | ok base =>
      have hprep : c.prepare env now = c.prepareAt env now base := by
        unfold prepare
        rcases h with h | ⟨reason, h⟩ <;> simp only [h, hest]
      rw [hprep]
      unfold prepareAt
      simp only
      split
      · next name cause _ =>
        exact .inl ⟨.configuration c.path.text name cause, _, by simp, rfl⟩
      · exact .inr ⟨_, _, _, rfl⟩
  -- only two of the five states let a preparation go on
  cases hstate : c.state with
  | starting =>
    refine .inl ⟨.inl rfl, ?_⟩
    unfold prepare
    rw [hstate]
  | started =>
    refine .inl ⟨.inr rfl, ?_⟩
    unfold prepare
    rw [hstate]
  | stopped =>
    refine .inr (.inl ⟨rfl, ?_⟩)
    unfold prepare
    rw [hstate]
  | deployed =>
    have h : c.IsPending := .inl hstate
    rcases hended h with hfail | hok
    · exact .inr (.inr (.inl ⟨h, hfail⟩))
    · exact .inr (.inr (.inr ⟨h, hok⟩))
  | failed reason =>
    have h : c.IsPending := .inr ⟨reason, hstate⟩
    rcases hended h with hfail | hok
    · exact .inr (.inr (.inl ⟨h, hfail⟩))
    · exact .inr (.inr (.inr ⟨h, hok⟩))

/-- However a preparation ends, the context keeps what neither a failure nor a start changes. -/
theorem prepare_keeps {α : Type} (f : Context → α) {c : Context}
    (hfail : ∀ e, f (c.markFailed e) = f c)
    (hstart : ∀ list setup now, f (c.takeOver list setup now) = f c) (env : Environment)
    (now : Instant) : f (c.prepare env now).context = f c := by
  rcases prepare_cases c env now with ⟨-, h⟩ | ⟨-, h⟩ | ⟨-, e, calls, -, h⟩ |
    ⟨-, list, setup, calls, h⟩
  · rw [h]
  · rw [h]
  · rw [h]
    exact hfail e
  · rw [h]
    exact hstart list setup now

theorem prepare_path (c : Context) (env : Environment) (now : Instant) :
    (c.prepare env now).context.path = c.path :=
  prepare_keeps (·.path) (fun _ => rfl) (fun _ _ _ => rfl) env now

/-- The context is of the same deployment. -/
theorem prepare_id (c : Context) (env : Environment) (now : Instant) :
    (c.prepare env now).context.id = c.id :=
  prepare_keeps (·.id) (fun _ => rfl) (fun _ _ _ => rfl) env now

/-- A pending context is not refused. -/
theorem IsPending.ne_alreadyStarted {c : Context} (hc : c.IsPending) (env : Environment)
    (now : Instant) (text : String) :
    (c.prepare env now).outcome ≠ .error (.alreadyStarted text) := by
  have hstate : c.state ≠ .starting ∧ c.state ≠ .started := by
    rcases hc with hs | ⟨reason, hs⟩ <;> rw [hs] <;> simp
  rcases prepare_cases c env now with ⟨hs | hs, -⟩ | ⟨-, h⟩ | ⟨-, e, calls, hne, h⟩ |
    ⟨-, _, _, _, h⟩
  · exact absurd hs hstate.1
  · exact absurd hs hstate.2
  · rw [h]
    simp
  · rw [h]
    intro heq
    exact hne text (Except.error.inj heq)
  · rw [h]
    simp

/-- A preparation that succeeds starts the context. -/
theorem state_of_prepare_ok {c : Context} {env : Environment} {now : Instant}
    (hok : (c.prepare env now).outcome = .ok ()) :
    (c.prepare env now).context.state = .started := by
  rcases prepare_cases c env now with ⟨-, h⟩ | ⟨-, h⟩ | ⟨-, e, calls, -, h⟩ | ⟨-, _, _, _, h⟩
  · rw [h] at hok
    cases hok
  · rw [h] at hok
    cases hok
  · rw [h] at hok
    cases hok
  · rw [h]
    rfl

/-! ### Settled contexts -/

/-- The context waits, is started with what it was prepared with, or has failed. -/
structure IsSettled (c : Context) : Prop where
  state : c.state = .deployed ∨ c.state = .started ∨ ∃ reason, c.state = .failed reason
  products : c.products?.isSome = true ↔ c.state = .started

theorem products?_isSome_iff {c : Context} :
    c.products?.isSome = true ↔ c.state = .started ∧ c.processors.isSome = true := by
  unfold products?
  cases hstate : c.state <;> simp [ContextState.isAvailable]

theorem isSettled_of_state_ne {c : Context}
    (h : c.state = .deployed ∨ ∃ reason, c.state = .failed reason) : c.IsSettled := by
  have hne : c.state ≠ .started := by
    rcases h with h | ⟨reason, h⟩ <;> rw [h] <;> simp
  refine ⟨h.imp_right .inr, ?_⟩
  rw [products?_isSome_iff]
  exact ⟨fun hs => hs.1, fun hs => absurd hs hne⟩

theorem isSettled_ofDescriptor {id : DeploymentId} {now : Instant} {d : Descriptor} {c : Context}
    (h : ofDescriptor id now d = .ok c) : c.IsSettled := by
  obtain ⟨-, -, -, hstate, -⟩ := ofDescriptor_spec h
  exact isSettled_of_state_ne (.inl hstate)

theorem isSettled_takeOver (c : Context) (list : ProcessorList) (setup : Setup)
    (now : Instant) : (c.takeOver list setup now).IsSettled := by
  refine ⟨.inr (.inl rfl), ?_⟩
  rw [products?_isSome_iff]
  exact ⟨fun h => h.1, fun h => ⟨h, rfl⟩⟩

theorem IsSettled.prepare {c : Context} (hc : c.IsSettled) (env : Environment) (now : Instant) :
    (c.prepare env now).context.IsSettled := by
  rcases prepare_cases c env now with ⟨-, h⟩ | ⟨-, h⟩ | ⟨-, e, calls, -, h⟩ |
    ⟨-, list, setup, calls, h⟩
  · rw [h]
    exact hc
  · rw [h]
    exact hc
  · rw [h]
    exact isSettled_of_state_ne (.inr ⟨e.message, rfl⟩)
  · rw [h]
    exact isSettled_takeOver c list setup now

/-- A preparation that is not refused was one of a pending context. -/
theorem IsSettled.isPending {c : Context} (hc : c.IsSettled) {env : Environment}
    {now : Instant} (hnot : ∀ text, (c.prepare env now).outcome ≠ .error (.alreadyStarted text)) :
    c.IsPending := by
  rcases prepare_cases c env now with ⟨-, h⟩ | ⟨hstopped, -⟩ | ⟨hp, -⟩ | ⟨hp, -⟩
  · exact absurd (by rw [h]) (hnot c.path.text)
  · rcases hc.state with hs | hs | ⟨reason, hs⟩ <;> rw [hstopped] at hs <;> simp at hs
  · exact hp
  · exact hp

end Hosting.Context
