import Hosting.Proofs.Host.Turns
import Mathlib.Data.List.Chain

/-! # Histories

    The history of a path says where its context is: the newest event belongs to the state
    of the context, and read oldest first the events are the life of one deployment after
    the other. Each operation writes its events with its change to the context or writes
    none, so this is kept path by path.

    - `Tells`: which histories, newest event first, come with which state.
    - `IsLifecycle`: the order in which events can follow each other.
    - `Agrees.handles`: every request keeps histories and states in agreement.
    - `history_tells_state`: what the history of a path says after any run.
-/

namespace Hosting

/-- An event without its path and its time. -/
abbrev Told := String × Option String

/-! ### Histories and states -/

/-- The event that ends a preparation, and the state it leaves the context in. -/
inductive Ends : Told → ContextState → Prop where
  | started : Ends ("started", none) .started
  | failed (text : String) : Ends ("failed", some text) (.failed text)

/-- The histories of one path, newest event first, that go with a state of its context. There is
    no state where nothing is registered. -/
inductive Tells : List Told → Option ContextState → Prop where
  | unused : Tells [] none
  | deployed {l : List Told} : Tells l none → Tells (("deployed", none) :: l) (some .deployed)
  | undeployed {l : List Told} {s : ContextState} :
      Tells l (some s) → Tells (("undeployed", none) :: l) none
  | prepared {l : List Told} {s s' : ContextState} {e : Told} :
      Tells l (some s) → s ≠ .started → Ends e s' → Tells (e :: l) (some s')
  /-- The new context is prepared at once, and both are written. -/
  | redeployed {l : List Told} {s s' : ContextState} {e : Told} :
      Tells l (some s) → Ends e s' → Tells (e :: ("redeployed", none) :: l) (some s')

/-- The newest event belongs to the state. -/
theorem Tells.newest {l : List Told} {s : Option ContextState} (ht : Tells l s) :
    (l = [] ∧ s = none) ∨ (l.head? = some ("undeployed", none) ∧ s = none) ∨
      (l.head? = some ("deployed", none) ∧ s = some .deployed) ∨
      ∃ e s', l.head? = some e ∧ s = some s' ∧ Ends e s' := by
  cases ht with
  | unused => exact .inl ⟨rfl, rfl⟩
  | deployed _ => exact .inr (.inr (.inl ⟨rfl, rfl⟩))
  | undeployed _ => exact .inr (.inl ⟨rfl, rfl⟩)
  | prepared _ _ hends => exact .inr (.inr (.inr ⟨_, _, rfl, rfl, hends⟩))
  | redeployed _ hends => exact .inr (.inr (.inr ⟨_, _, rfl, rfl, hends⟩))

/-- So each tells the other. -/
theorem Tells.iff_state {l : List Told} {s : Option ContextState} (ht : Tells l s) :
    (l.head?.map (·.1) = some "deployed" ↔ s = some .deployed) ∧
      (l.head?.map (·.1) = some "started" ↔ s = some .started) ∧
      (∀ text, l.head? = some ("failed", some text) ↔ s = some (.failed text)) ∧
      (l.head? = none ∨ l.head?.map (·.1) = some "undeployed" ↔ s = none) := by
  rcases ht.newest with ⟨hl, hs⟩ | ⟨hl, hs⟩ | ⟨hl, hs⟩ | ⟨e, s', hl, hs, hends⟩
  · simp [hl, hs]
  · simp [hl, hs]
  · simp [hl, hs]
  · cases hends with
    | started => simp [hl, hs]
    | failed text => simp [hl, hs]

/-! ### The order of events -/

/-- The events that may come right after an event. -/
def successors : String → List String
  | "deployed" => ["started", "failed", "redeployed", "undeployed"]
  | "failed" => ["started", "failed", "redeployed", "undeployed"]
  | "started" => ["redeployed", "undeployed"]
  | "redeployed" => ["started", "failed"]
  | "undeployed" => ["deployed"]
  | _ => []

/-- The events of a path, oldest first, as they can follow each other. -/
structure IsLifecycle (events : List String) : Prop where
  /-- The first event is a deployment. -/
  first : ∀ e, events.head? = some e → e = "deployed"
  next : events.IsChain fun before after => after ∈ successors before
  /-- How a redeployment went is always written too. -/
  last : events.getLast? ≠ some "redeployed"

theorem Ends.event {e : Told} {s : ContextState} (he : Ends e s) :
    e.1 = "started" ∨ e.1 = "failed" := by
  cases he with
  | started => exact .inl rfl
  | failed text => exact .inr rfl

/-- What the newest event of a registered context is. A context that is not started has another one
    than a started context. -/
theorem Tells.newest_registered {l : List Told} {s : ContextState} (ht : Tells l (some s)) :
    ∃ e, l.head? = some e ∧
      (e.1 = "deployed" ∨ e.1 = "failed" ∨ e.1 = "started" ∧ s = .started) := by
  rcases ht.newest with ⟨-, hs⟩ | ⟨-, hs⟩ | ⟨hhead, -⟩ | ⟨e, s', hhead, hs, hends⟩
  · simp at hs
  · simp at hs
  · exact ⟨_, hhead, .inl rfl⟩
  · obtain rfl := Option.some.inj hs
    refine ⟨e, hhead, ?_⟩
    cases hends with
    | started => exact .inr (.inr ⟨rfl, rfl⟩)
    | failed text => exact .inr (.inl rfl)

theorem Tells.first {l : List Told} {s : Option ContextState} (ht : Tells l s) :
    ∀ e, l.getLast? = some e → e.1 = "deployed" := by
  -- an event on top of others is not the first one, unless it is a deployment itself
  have hcons {l : List Told} {s : ContextState} (ht : Tells l (some s))
      (ih : ∀ e, l.getLast? = some e → e.1 = "deployed") (e : Told) :
      ∀ x, (e :: l).getLast? = some x → x.1 = "deployed" := by
    obtain ⟨x, hx, -⟩ := ht.newest_registered
    cases l with
    | nil => simp at hx
    | cons y l =>
      rw [List.getLast?_cons_cons]
      exact ih
  induction ht with
  | unused => simp
  | @deployed l _ ih =>
    cases l with
    | nil => simp
    | cons y l =>
      rw [List.getLast?_cons_cons]
      exact ih
  | undeployed ht ih => exact hcons ht ih _
  | prepared ht _ _ ih => exact hcons ht ih _
  | redeployed ht _ ih =>
    rw [List.getLast?_cons_cons]
    exact hcons ht ih _

/-- Newest event first, every event may come after the next one. -/
theorem Tells.chain {l : List Told} {s : Option ContextState} (ht : Tells l s) :
    l.IsChain fun after before => after.1 ∈ successors before.1 := by
  induction ht with
  | unused => exact .nil
  | @deployed l ht ih =>
    refine List.isChain_cons.2 ⟨fun before hbefore => ?_, ih⟩
    rcases ht.newest with ⟨hl, -⟩ | ⟨hhead, -⟩ | ⟨-, hs⟩ | ⟨_, _, -, hs, -⟩
    · simp [hl] at hbefore
    · rw [hhead] at hbefore
      obtain rfl := Option.some.inj hbefore
      simp [successors]
    · simp at hs
    · simp at hs
  | undeployed ht ih =>
    refine List.isChain_cons.2 ⟨fun before hbefore => ?_, ih⟩
    obtain ⟨e, hhead, he⟩ := ht.newest_registered
    rw [hhead] at hbefore
    obtain rfl := Option.some.inj hbefore
    rcases he with he | he | ⟨he, -⟩ <;> simp [successors, he]
  | prepared ht hnot hends ih =>
    refine List.isChain_cons.2 ⟨fun before hbefore => ?_, ih⟩
    obtain ⟨e, hhead, he⟩ := ht.newest_registered
    rw [hhead] at hbefore
    obtain rfl := Option.some.inj hbefore
    -- after a start nothing is prepared, until the context is another one
    rcases he with he | he | ⟨-, hs⟩
    · rcases hends.event with hevent | hevent <;> simp [successors, he, hevent]
    · rcases hends.event with hevent | hevent <;> simp [successors, he, hevent]
    · exact absurd hs hnot
  | @redeployed l _ _ _ ht hends ih =>
    have htop : (("redeployed", none) :: l : List Told).IsChain
        fun after before => after.1 ∈ successors before.1 := by
      refine List.isChain_cons.2 ⟨fun before hbefore => ?_, ih⟩
      obtain ⟨e, hhead, he⟩ := ht.newest_registered
      rw [hhead] at hbefore
      obtain rfl := Option.some.inj hbefore
      rcases he with he | he | ⟨he, -⟩ <;> simp [successors, he]
    refine List.isChain_cons_cons.2 ⟨?_, htop⟩
    rcases hends.event with hevent | hevent <;> simp [successors, hevent]

theorem Tells.isLifecycle {l : List Told} {s : Option ContextState} (ht : Tells l s) :
    IsLifecycle (l.map (·.1)).reverse := by
  refine ⟨fun e he => ?_, ?_, ?_⟩
  · rw [List.head?_reverse, List.getLast?_map, Option.map_eq_some_iff] at he
    obtain ⟨x, hx, rfl⟩ := he
    exact ht.first x hx
  · rw [List.isChain_reverse, List.isChain_map]
    exact ht.chain
  · rw [List.getLast?_reverse, List.head?_map]
    rcases ht.newest with ⟨hl, -⟩ | ⟨hhead, -⟩ | ⟨hhead, -⟩ | ⟨e, s', hhead, -, hends⟩
    · simp [hl]
    · simp [hhead]
    · simp [hhead]
    · rcases hends.event with hevent | hevent <;> simp [hhead, hevent]

/-- How a preparation that is not refused ends is written as it is. -/
theorem Context.IsPending.ends {c : Context} (hc : c.IsPending) (env : Environment)
    (now : Instant) :
    Ends (Host.startupEvent (c.prepare env now).outcome) (c.prepare env now).context.state := by
  rcases Context.prepare_cases c env now with ⟨hs, -⟩ | ⟨hs, -⟩ | ⟨-, e, calls, -, h⟩ |
    ⟨-, list, setup, calls, h⟩
  · rcases hc with hc | ⟨reason, hc⟩ <;> rw [hc] at hs <;> simp at hs
  · rcases hc with hc | ⟨reason, hc⟩ <;> rw [hc] at hs <;> simp at hs
  · rw [h]
    exact .failed e.message
  · rw [h]
    exact .started

namespace Host

variable {h h' : Host} {rows : List DeploymentRow}

/-! ### What a host tells -/

/-- The state of what is registered under a path. -/
def stateAt (h : Host) (p : ContextPath) : Option ContextState :=
  (h.contexts.get? p).map (·.state)

/-- The events of a path, newest first. -/
def told (h : Host) (p : ContextPath) : List Told :=
  (h.events.filter (·.contextPath = p.text)).map fun row => (row.event, row.details)

/-- The history of every path goes with the state of its context. -/
def Agrees (h : Host) : Prop :=
  ∀ p, Tells (h.told p) (h.stateAt p)

theorem told_of_events_eq (heq : h'.events = h.events) (p : ContextPath) :
    h'.told p = h.told p := by
  unfold told
  rw [heq]

theorem stateAt_of_get? {p : ContextPath} {c : Context} (hc : h.contexts.get? p = some c) :
    h.stateAt p = some c.state := by
  unfold stateAt
  rw [hc]
  rfl

/-- An event is told of its own path only. -/
theorem told_record (hs : h.Stores rows) (path : ContextPath) (event : String)
    (details : Option String) (p : ContextPath) :
    (h.record path event details).told p =
      if p = path then (event, details) :: h.told p else h.told p := by
  unfold told
  rw [hs.events_record]
  by_cases hp : p = path
  · subst hp
    rw [if_pos rfl, List.filter_cons_of_pos (by simp)]
    rfl
  · have hne : path.text ≠ p.text := fun htext => hp (ContextPath.ext_text htext.symm)
    rw [if_neg hp, List.filter_cons_of_neg (by simpa using hne)]

theorem Agrees.of_eq (ha : h.Agrees) (hevents : h'.events = h.events)
    (hcontexts : h'.contexts = h.contexts) : h'.Agrees := by
  intro p
  rw [told_of_events_eq hevents p, stateAt, hcontexts]
  exact ha p

/-- A change at one path, with the events written for it, has to be looked at there only. -/
theorem Agrees.change (ha : h.Agrees) {path : ContextPath} {news : List Told}
    {s : Option ContextState}
    (htold : ∀ p, h'.told p = if p = path then news ++ h.told p else h.told p)
    (hstate : ∀ p, h'.stateAt p = if p = path then s else h.stateAt p)
    (hnew : Tells (news ++ h.told path) s) : h'.Agrees := by
  intro p
  rw [htold p, hstate p]
  by_cases hp : p = path
  · rw [if_pos hp, if_pos hp, hp]
    exact hnew
  · rw [if_neg hp, if_neg hp]
    exact ha p

theorem stateAt_of_insert {path : ContextPath} {c : Context}
    (hcontexts : h'.contexts = h.contexts.insert path c) (p : ContextPath) :
    h'.stateAt p = if p = path then some c.state else h.stateAt p := by
  unfold stateAt
  rw [hcontexts, PathTable.get?_insert]
  split <;> rfl

/-! ### What the operations keep -/

theorem Agrees.settle (ha : h.Agrees) (hs : h.Stores rows) {c : Context}
    (hc : h.contexts.get? c.path = some c) (hpending : c.IsPending) (env : Environment)
    (now : Instant) : (h.settle (c.prepare env now)).Agrees := by
  let prep := c.prepare env now
  have hpath : prep.context.path = c.path := Context.prepare_path c env now
  have hput : (h.insertContext prep.context).Stores rows := hs.of_database_eq rfl
  have htold : ∀ p, (h.settle prep).told p =
      if p = c.path then [startupEvent prep.outcome] ++ h.told p else h.told p := by
    intro p
    unfold Host.settle
    rw [recordStartup_eq, told_record hput, hpath]
    rfl
  have hstate := stateAt_of_insert (contexts_settle h prep)
  rw [hpath] at hstate
  -- the event and the state both come from the outcome, at this path only
  refine ha.change htold hstate (.prepared (s := c.state) ?_ ?_ (hpending.ends env now))
  · have hold := ha c.path
    rw [stateAt_of_get? hc] at hold
    exact hold
  · rcases hpending with hc | ⟨reason, hc⟩ <;> rw [hc] <;> simp

theorem Agrees.renew (ha : h.Agrees) (hs : h.Stores rows) {c current : Context}
    (hcurrent : h.contexts.get? c.path = some current) (hpending : c.IsPending)
    (env : Environment) (now : Instant) : (h.renew (c.prepare env now)).Agrees := by
  let prep := c.prepare env now
  have hpath : prep.context.path = c.path := Context.prepare_path c env now
  have hput : (h.insertContext prep.context).Stores rows := hs.of_database_eq rfl
  have htold : ∀ p, (h.renew prep).told p =
      if p = c.path then [startupEvent prep.outcome, ("redeployed", none)] ++ h.told p
      else h.told p := by
    intro p
    unfold Host.renew
    rw [recordStartup_eq, told_record (hput.record ..), told_record hput, hpath]
    split <;> rfl
  have hstate := stateAt_of_insert (contexts_renew h prep)
  rw [hpath] at hstate
  refine ha.change htold hstate (.redeployed (s := current.state) ?_ (hpending.ends env now))
  have hold := ha c.path
  rw [stateAt_of_get? hcurrent] at hold
  exact hold

theorem Agrees.turn (ha : h.Agrees) (hcalm : h.Calm) (ht : Turn h h') : h'.Agrees := by
  obtain ⟨rows, hs, -⟩ := hcalm.mirrored
  cases ht with
  | tick => exact ha.of_eq rfl rfl
  | settle env now hc hpending => exact ha.settle hs hc hpending env now
  | renew id made env now hd hc hin =>
    obtain ⟨current, hcurrent⟩ := hin
    obtain ⟨-, -, -, hstate, -⟩ := Context.ofDescriptor_spec hc
    exact ha.renew hs hcurrent (.inl hstate) env now

theorem Agrees.turns (ha : h.Agrees) (hcalm : h.Calm) (ht : Turns h h') : h'.Agrees := by
  have hboth : h'.Agrees ∧ h'.Calm := by
    induction ht with
    | refl => exact ⟨ha, hcalm⟩
    | tail _ hturn ih => exact ⟨ih.1.turn ih.2 hturn, ih.2.turn hturn⟩
  exact hboth.1

theorem Agrees.deploy (ha : h.Agrees) (hs : h.Stores rows) (d : Descriptor) :
    (h.deploy d).1.Agrees := by
  rcases hs.deploy_cases d with ⟨e, -, he⟩ | ⟨path, -, -, he⟩ |
    ⟨c, stored, hc, hfree, hs', hput, hok⟩
  · rw [he]
    exact ha.of_eq rfl rfl
  · rw [he]
    exact ha.of_eq rfl rfl
  · obtain ⟨-, -, -, hdeployed, -⟩ := Context.ofDescriptor_spec hc
    have htold : ∀ p, (h.deploy d).1.told p =
        if p = c.path then [("deployed", none)] ++ h.told p else h.told p := by
      intro p
      rw [hok, told_record hs', told_of_events_eq hput.events p]
      rfl
    have hstate : ∀ p, (h.deploy d).1.stateAt p =
        if p = c.path then some c.state else h.stateAt p := by
      refine stateAt_of_insert ?_
      rw [hok, contexts_record, hput.contexts]
      rfl
    rw [hdeployed] at hstate
    refine ha.change htold hstate (.deployed ?_)
    -- nothing was registered there before
    have hnone : h.contexts.get? c.path = none := by
      have hfree : (h.contexts.get? c.path).isSome = false := hfree
      simpa using hfree
    have hold := ha c.path
    rw [stateAt, hnone] at hold
    exact hold

theorem Agrees.undeploy (ha : h.Agrees) (hs : h.Stores rows) (path : ContextPath) :
    (h.undeploy path).1.Agrees := by
  rcases hs.undeploy_cases path with ⟨-, he⟩ | ⟨c, removed, hc, hs', htaken, hok⟩
  · rw [he]
    exact ha
  · have htold : ∀ p, (h.undeploy path).1.told p =
        if p = path then [("undeployed", none)] ++ h.told p else h.told p := by
      intro p
      rw [hok, told_record hs', told_of_events_eq htaken.events p]
      rfl
    have hstate : ∀ p, (h.undeploy path).1.stateAt p =
        if p = path then none else h.stateAt p := by
      intro p
      unfold stateAt
      rw [hok, contexts_record, htaken.contexts, removeDescriptor, removeContext,
        PathTable.get?_erase]
      split <;> rfl
    refine ha.change htold hstate (.undeployed (s := c.state) ?_)
    have hold := ha path
    rw [stateAt_of_get? hc] at hold
    exact hold

theorem Agrees.handles (ha : h.Agrees) (hcalm : h.Calm) {r : Request} {a : Answer}
    (hh : Handles h r a h') : h'.Agrees := by
  obtain ⟨rows, hs, -⟩ := hcalm.mirrored
  rcases hcalm.handles_cases hh with ⟨d, -, -, rfl⟩ | ⟨path, -, -, rfl⟩ | ⟨-, -, -, ht⟩
  · exact ha.deploy hs d
  · exact ha.undeploy hs path
  · exact ha.turns hcalm ht

theorem Agrees.run (ha : h.Agrees) (hcalm : h.Calm) {requests : List Request}
    {answers : List Answer} (hrun : Run h requests answers h') : h'.Agrees := by
  induction hrun with
  | nil => exact ha
  | cons hh _ ih => exact ih (ha.handles hcalm hh) (hcalm.handles hh)

theorem agrees_of_restore {blank db : Database} {registry : ProcessorRegistry} {supply : Supply}
    (hblank : blank.tables = .empty) (hmade : blank.makeTables = .ok db)
    (hopened : restore db registry supply = .ok h) : h.Agrees := by
  obtain ⟨-, ht⟩ := tables_of_makeTables hblank hmade
  rw [restore_of_noRows ht] at hopened
  obtain rfl := Except.ok.inj hopened
  intro p
  have htold : ({ ofSettings .default registry supply with database := some db } : Host).told p =
      [] := by
    simp only [told, events, tables, ht, Option.getD_some, List.filter_nil, List.map_nil]
  rw [htold]
  exact .unused

/-! ### What a history says -/

/-- After any run on a host that was opened from a fresh database, the newest event of a path says
    where its context is, and the events are those of one deployment after the other. -/
theorem history_tells_state {blank db : Database} {registry : ProcessorRegistry}
    {supply : Supply} {requests : List Request} {answers : List Answer}
    (hblank : blank.tables = .empty) (hmade : blank.makeTables = .ok db)
    (hopened : restore db registry supply = .ok h) (hquiet : registry.IsQuiet)
    (hrun : Run h requests answers h') (p : ContextPath) :
    ∃ rows, h'.history p = .ok rows ∧
      (rows.head?.map (·.event) = some "deployed" ↔ h'.stateAt p = some .deployed) ∧
      (rows.head?.map (·.event) = some "started" ↔ h'.stateAt p = some .started) ∧
      (∀ text, rows.head?.map (fun row => (row.event, row.details)) =
        some ("failed", some text) ↔ h'.stateAt p = some (.failed text)) ∧
      (rows = [] ∨ rows.head?.map (·.event) = some "undeployed" ↔
        h'.contexts.get? p = none) ∧
      IsLifecycle (rows.map (·.event)).reverse := by
  -- the run keeps histories and states in agreement, path by path
  have hcalm : h.Calm := calm_of_restore hblank hmade hopened hquiet
  have hagrees : h'.Agrees := (agrees_of_restore hblank hmade hopened).run hcalm hrun
  obtain ⟨deployments, hs, -⟩ := (hcalm.run hrun).mirrored
  have htells : Tells (h'.told p) (h'.stateAt p) := hagrees p
  refine ⟨_, hs.history_eq p, ?_⟩
  -- what is left is to read the rows as the events that are told
  generalize hrows : h'.events.filter (·.contextPath = p.text) = rows
  have htold : h'.told p = rows.map fun row => (row.event, row.details) := by
    unfold told
    rw [hrows]
  have hevents : rows.map (·.event) = (h'.told p).map (·.1) := by
    rw [htold, List.map_map]
    rfl
  have hevent : rows.head?.map (·.event) = (h'.told p).head?.map (·.1) := by
    rw [← List.head?_map, ← List.head?_map, hevents]
  have hhead : rows.head?.map (fun row => (row.event, row.details)) = (h'.told p).head? := by
    rw [htold, List.head?_map]
  have hempty : rows = [] ↔ (h'.told p).head? = none := by
    rw [List.head?_eq_none_iff, htold, List.map_eq_nil_iff]
  have hgone : h'.contexts.get? p = none ↔ h'.stateAt p = none := by
    rw [stateAt, Option.map_eq_none_iff]
  rw [hevent, hhead, hempty, hgone, hevents]
  obtain ⟨hdeployed, hstarted, hfailed, hunregistered⟩ := htells.iff_state
  exact ⟨hdeployed, hstarted, hfailed, hunregistered, htells.isLifecycle⟩

/-- An application is deployed at `/A`, undeployed and deployed again. -/
def deployAgain : List Request :=
  let d := Descriptor.ofBase "/A" "/srv/a"
  [.deploy d, .undeploy Sample.pathA, .deploy d]

/-- The host after these requests. -/
def againHost : Host :=
  let d := Descriptor.ofBase "/A" "/srv/a"
  (((defaultHost.deploy d).1.undeploy Sample.pathA).1.deploy d).1

/-- The newest event says that the application is there again. -/
theorem history_tells_state_again :
    ∃ answers, Run defaultHost deployAgain answers againHost ∧
      againHost.stateAt Sample.pathA = some .deployed ∧
      ∃ rows, againHost.history Sample.pathA = .ok rows ∧
        rows.head?.map (·.event) = some "deployed" ∧
        IsLifecycle (rows.map (·.event)).reverse := by
  have hmade : Database.inMemory.makeTables = .ok freshDatabase := by
    rfl
  have hrun : Run defaultHost deployAgain _ againHost :=
    .cons (.deploy _ _) (.cons (.undeploy _ _) (.cons (.deploy _ _) (.nil _)))
  have hstate : againHost.stateAt Sample.pathA = some .deployed := by
    rfl
  obtain ⟨rows, hhistory, hdeployed, -, -, -, hlifecycle⟩ :=
    history_tells_state rfl hmade restore_defaultHost ProcessorRegistry.isQuiet_default hrun
      Sample.pathA
  exact ⟨_, hrun, hstate, rows, hhistory, hdeployed.2 hstate, hlifecycle⟩

end Host

end Hosting
