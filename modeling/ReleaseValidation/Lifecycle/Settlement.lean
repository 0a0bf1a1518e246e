import ReleaseValidation.Lifecycle.Invariants

/-! # When a run whose sandbox has ended is settled

The closed event of a sandbox changes nothing in the run. A run becomes terminal
only through a failed event, through a result message whose counts read lets the
run be closed, or through a cancel that the ready handler does not overwrite. Once
every event and every result message is handled, the run is terminal exactly when
one of the three has happened.
-/
namespace ReleaseValidation.Lifecycle
open Store Orchestrator Runs

variable {cfg : Config} {s t : State}

/-- The sandbox's task has ended, and every event and result message is handled. -/
structure Quiescent (s : State) : Prop where
  sandbox : s.sandbox = .ended
  events : s.events = []
  handler : s.handler = .idle
  results : ∀ c ∈ s.commands, c.stage.unhandled = false

/-- A result message had its counts read when they let the run be closed. -/
def PassingRead (cfg : Config) (s : State) (as : List Act) : Prop :=
  ∃ pre i post u, as = pre ++ .command i .readCounts :: post ∧ exec (step cfg) s pre = some u ∧
    (counts u.run.dispatchedCount u.rows).unfinished = false

/-- A cancel was committed, and the ready handler did not set the run to running after it. -/
def CancelStands (as : List Act) : Prop :=
  ∃ pre post, as = pre ++ .commitCancel :: post ∧ Act.handler .readyUpdate ∉ post

def Settles (cfg : Config) (s : State) (as : List Act) : Prop :=
  .sandbox .publishFailed ∈ as ∨ PassingRead cfg s as ∨ CancelStands as

theorem PassingRead.append {as bs : List Act} (h : PassingRead cfg s as) : PassingRead cfg s (as ++ bs) := by
  obtain ⟨pre, i, post, u, rfl, hu, hc⟩ := h
  exact ⟨pre, i, post ++ bs, u, by simp, hu, hc⟩

theorem CancelStands.snoc {as : List Act} {a : Act} (h : CancelStands as)
    (ha : a ≠ .handler .readyUpdate) : CancelStands (as ++ [a]) := by
  obtain ⟨pre, post, rfl, hpost⟩ := h
  refine ⟨pre, post ++ [a], by simp, ?_⟩
  intro hmem
  rcases List.mem_append.mp hmem with hmem | hmem
  · exact hpost hmem
  · exact ha (List.mem_singleton.mp hmem).symm

theorem Settles.snoc {as : List Act} {a : Act} (h : Settles cfg s as)
    (ha : a ≠ .handler .readyUpdate) : Settles cfg s (as ++ [a]) := by
  rcases h with h | h | h
  · exact .inl (List.mem_append_left _ h)
  · exact .inr (.inl h.append)
  · exact .inr (.inr (h.snoc ha))

/-! ### A terminal run has been settled -/

/-- What each terminal status, and each step on the way to it, owes to the past. -/
structure Owed (cfg : Config) (s : State) (as : List Act) (t : State) : Prop where
  failed : (.failed ∈ t.events ∨ t.handler = .failedChecked) → .sandbox .publishFailed ∈ as
  closing : ∀ c ∈ t.commands, c.stage.closing = true → PassingRead cfg s as
  terminal : t.run.status.terminal = true → Settles cfg s as

theorem owed_step {s₀ : State} {as : List Act} {a : Act} (hu : exec (step cfg) s₀ as = some s)
    (hs : Owed cfg s₀ as s) (h : step cfg s a = some t) : Owed cfg s₀ (as ++ [a]) t := by
  cases a with
  | sandbox a =>
    obtain ⟨x, es, hx, rfl⟩ := step_sandbox h
    refine ⟨?_, fun c hc hcl => (hs.closing c hc hcl).append, fun ht => (hs.terminal ht).snoc nofun⟩
    rcases sandbox_step_failed hx with ⟨rfl, -, -⟩ | ⟨-, hes⟩
    · intro _
      simp
    · intro hf
      refine List.mem_append_left _ (hs.failed ?_)
      rcases hf with hf | hf
      · exact .inl ((List.mem_append.mp hf).resolve_right hes)
      · exact .inr hf
  | command i a =>
    obtain ⟨c, x, run, hc, hx, rfl⟩ := step_command h
    refine ⟨fun hf => List.mem_append_left _ (hs.failed hf), ?_, ?_⟩
    · intro d hd hcl
      rcases List.mem_or_eq_of_mem_set hd with hd | rfl
      · exact (hs.closing d hd hcl).append
      · rcases stage_step_closing hx hcl with hcl | ⟨rfl, hcl⟩
        · exact (hs.closing c (List.mem_of_getElem? hc) hcl).append
        · exact ⟨as, i, [], s, rfl, hu, hcl⟩
    · intro ht
      rcases stage_step_run hx with rfl | ⟨o, rate, hrated, -, -, -⟩
      · exact (hs.terminal ht).snoc nofun
      · have hcl : c.stage.closing = true := by rw [hrated, Stage.closing]
        exact .inr (.inl (hs.closing c (List.mem_of_getElem? hc) hcl).append)
  | trigger =>
    cases h
    refine ⟨fun hf => List.mem_append_left _ (hs.failed hf), ?_, fun ht => (hs.terminal ht).snoc nofun⟩
    intro c hc hcl
    rcases List.mem_append.mp hc with hc | hc
    · exact (hs.closing c hc hcl).append
    · rw [List.mem_singleton.mp hc] at hcl
      cases hcl
  | requestCancel =>
    obtain ⟨n, rfl⟩ := step_requestCancel h
    exact ⟨fun hf => List.mem_append_left _ (hs.failed hf), fun c hc hcl => (hs.closing c hc hcl).append,
      fun ht => (hs.terminal ht).snoc nofun⟩
  | commitCancel =>
    rw [step_commitCancel h]
    exact ⟨fun hf => List.mem_append_left _ (hs.failed hf), fun c hc hcl => (hs.closing c hc hcl).append,
      fun _ => .inr (.inr ⟨as, [], rfl, nofun⟩)⟩
  | handler a =>
    cases a with
    | takeEvent =>
      obtain ⟨e, es, -, he, rfl⟩ := step_takeEvent h
      refine ⟨?_, fun c hc hcl => (hs.closing c hc hcl).append, fun ht => (hs.terminal ht).snoc nofun⟩
      intro hf
      refine List.mem_append_left _ (hs.failed (.inl ?_))
      rw [he]
      rcases hf with hf | hf
      · exact List.mem_cons_of_mem _ hf
      · change (if s.run.status = .cancelled then Handler.idle else .receive e) = .failedChecked at hf
        split at hf
        · cases hf
        · cases e with
          | failed => exact List.mem_cons_self
          | ready | provisioning | closed => cases hf
    | readyUpdate =>
      obtain ⟨-, rfl⟩ := step_readyUpdate h
      refine ⟨?_, fun c hc hcl => (hs.closing c hc hcl).append, nofun⟩
      intro hf
      refine List.mem_append_left _ (hs.failed (.inl ?_))
      exact hf.resolve_right nofun
    | publishCommand =>
      obtain ⟨k, -, -, rfl⟩ := step_publishCommand h
      refine ⟨?_, ?_, fun ht => (hs.terminal ht).snoc nofun⟩
      · intro hf
        exact List.mem_append_left _ (hs.failed (.inl (hf.resolve_right nofun)))
      · intro c hc hcl
        rcases List.mem_append.mp hc with hc | hc
        · exact (hs.closing c hc hcl).append
        · rw [List.mem_singleton.mp hc] at hcl
          cases hcl
    | writeCount =>
      obtain ⟨k, -, -, rfl⟩ := step_writeCount h
      refine ⟨?_, fun c hc hcl => (hs.closing c hc hcl).append, fun ht => (hs.terminal ht).snoc nofun⟩
      intro hf
      exact List.mem_append_left _ (hs.failed (.inl (hf.resolve_right nofun)))
    | failedUpdate =>
      obtain ⟨hh, rfl⟩ := step_failedUpdate h
      have hf := hs.failed (.inr hh)
      exact ⟨fun _ => List.mem_append_left _ hf, fun c hc hcl => (hs.closing c hc hcl).append,
        fun _ => .inl (List.mem_append_left _ hf)⟩

theorem owed_exec {aiSession : Bool} {as : List Act} (h : exec (step cfg) (.initial aiSession) as = some t) :
    Owed cfg (.initial aiSession) as t := by
  refine exec_history (P := Owed cfg (.initial aiSession)) ?_ ?_ h
  · exact ⟨nofun, nofun, nofun⟩
  · intro as u a v hu hP hv
    exact owed_step hu hP hv

/-! ### What settles a run keeps it settled -/

/-- Only the ready handler takes a run out of a terminal status. -/
theorem step_terminal {a : Act} (ha : a ≠ .handler .readyUpdate) (h : step cfg s a = some t)
    (hs : s.run.status.terminal = true) : t.run.status.terminal = true := by
  cases a with
  | sandbox a =>
    obtain ⟨x, es, -, rfl⟩ := step_sandbox h
    exact hs
  | command i a =>
    obtain ⟨c, x, run, -, hx, rfl⟩ := step_command h
    rcases stage_step_run hx with rfl | ⟨o, rate, -, -, -, rfl⟩
    · exact hs
    · exact closeRun_terminal (.inr hs)
  | trigger =>
    cases h
    exact hs
  | requestCancel =>
    obtain ⟨n, rfl⟩ := step_requestCancel h
    exact hs
  | commitCancel =>
    rw [step_commitCancel h]
    rfl
  | handler a =>
    cases a with
    | takeEvent =>
      obtain ⟨e, es, -, -, rfl⟩ := step_takeEvent h
      exact hs
    | readyUpdate => exact absurd rfl ha
    | publishCommand =>
      obtain ⟨k, -, -, rfl⟩ := step_publishCommand h
      exact hs
    | writeCount =>
      obtain ⟨k, -, -, rfl⟩ := step_writeCount h
      exact hs
    | failedUpdate =>
      obtain ⟨-, rfl⟩ := step_failedUpdate h
      rfl

/-- The ready event is handled, or will never be published. -/
structure PastReady (s : State) : Prop where
  sandbox : s.sandbox.beforeReady = false
  events : .ready ∉ s.events
  handler : s.handler ≠ .readyChecked

theorem sandbox_step_pastReady {a : SandboxAct} {x : Sandbox} {es : List Event}
    (hx : s.sandbox.step cfg s.run s.rows a = some (x, es)) (hs : s.sandbox.beforeReady = false) :
    x.beforeReady = false ∧ .ready ∉ es := by
  have hle := sandbox_step_readies hx
  rw [hs, Bool.toNat_false] at hle
  refine ⟨?_, List.count_eq_zero.mp (by omega)⟩
  cases hb : x.beforeReady with
  | false => rfl
  | true =>
    rw [hb, Bool.toNat_true] at hle
    omega

theorem step_beforeReady {a : Act} (h : step cfg s a = some t) (hs : s.sandbox.beforeReady = false) :
    t.sandbox.beforeReady = false := by
  by_cases ha : ∃ b, a = .sandbox b
  · obtain ⟨b, rfl⟩ := ha
    obtain ⟨x, es, hx, rfl⟩ := step_sandbox h
    exact (sandbox_step_pastReady hx hs).1
  · rw [step_sandbox_eq h (fun b hb => ha ⟨b, hb⟩)]
    exact hs

/-- Events are handled in order: all steps but one only append to the queue. -/
theorem step_events {a : Act} (h : step cfg s a = some t) (hs : s.sandbox.beforeReady = false) :
    a = .handler .takeEvent ∨ ∃ es, t.events = s.events ++ es ∧ .ready ∉ es := by
  by_cases ha : ∃ b, a = .sandbox b
  · obtain ⟨b, rfl⟩ := ha
    obtain ⟨x, es, hx, rfl⟩ := step_sandbox h
    exact .inr ⟨es, rfl, (sandbox_step_pastReady hx hs).2⟩
  · by_cases hta : a = .handler .takeEvent
    · exact .inl hta
    · have hes := step_events_eq h (fun b hb => ha ⟨b, hb⟩) hta
      exact .inr ⟨[], by rw [hes, List.append_nil], nofun⟩

theorem takeEvent_pastReady (h : step cfg s (.handler .takeEvent) = some t) (hs : PastReady s) :
    PastReady t := by
  obtain ⟨e, es, -, he, rfl⟩ := step_takeEvent h
  have hmem := hs.events
  rw [he] at hmem
  refine ⟨hs.sandbox, fun hes => hmem (List.mem_cons_of_mem _ hes), ?_⟩
  change (if s.run.status = .cancelled then Handler.idle else .receive e) ≠ .readyChecked
  split
  · nofun
  · cases e with
    | ready => exact absurd List.mem_cons_self hmem
    | provisioning | failed | closed => nofun

theorem step_pastReady {a : Act} (h : step cfg s a = some t) (hs : PastReady s) : PastReady t := by
  rcases step_events h hs.sandbox with rfl | ⟨es, hes, hready⟩
  · exact takeEvent_pastReady h hs
  · refine ⟨step_beforeReady h hs.sandbox, ?_, ?_⟩
    · rw [hes]
      intro hmem
      exact (List.mem_append.mp hmem).elim hs.events hready
    · by_cases ha : ∃ b, a = .handler b
      · obtain ⟨b, rfl⟩ := ha
        cases b with
        | takeEvent => exact (takeEvent_pastReady h hs).handler
        | readyUpdate => exact absurd (step_readyUpdate h).1 hs.handler
        | publishCommand => obtain ⟨k, -, -, rfl⟩ := step_publishCommand h; nofun
        | writeCount => obtain ⟨k, -, -, rfl⟩ := step_writeCount h; nofun
        | failedUpdate => obtain ⟨-, rfl⟩ := step_failedUpdate h; nofun
      · rw [step_handler_eq h (fun b hb => ha ⟨b, hb⟩)]
        exact hs.handler

theorem PastReady.ne_readyUpdate {a : Act} (hs : PastReady s) (h : step cfg s a = some t) :
    a ≠ .handler .readyUpdate := by
  rintro rfl
  exact hs.handler (step_readyUpdate h).1

theorem Wellformed.pastReady (hs : Wellformed cfg s) (h : s.run.dispatchedCount.isSome = true) :
    PastReady s := by
  have h1 := hs.readies
  rw [State.readies, h, Bool.toNat_true] at h1
  refine ⟨?_, List.count_eq_zero.mp (by omega), ?_⟩
  · cases hb : s.sandbox.beforeReady with
    | false => rfl
    | true =>
      rw [hb, Bool.toNat_true] at h1
      omega
  · intro hh
    rw [hh, Handler.readies] at h1
    omega

/-- A failed event is under way, and no ready event can come after it. -/
def FailAhead (s : State) : Prop :=
  s.sandbox.beforeReady = false ∧
    ((∃ l r, s.events = l ++ .failed :: r ∧ .ready ∉ r) ∨
      PastReady s ∧ (s.handler = .failedChecked ∨ s.run.status.terminal = true))

/-- The results handler is about to close a run that is running or terminal. -/
def CloseAhead (s : State) : Prop :=
  PastReady s ∧ RunRow.started s.run ∧
    (s.run.status.terminal = true ∨ ∃ c ∈ s.commands, c.stage.closing = true)

theorem step_failedChecked {a : Act} (h : step cfg s a = some t) (hs : s.handler = .failedChecked) :
    t.handler = .failedChecked ∨ t.run.status.terminal = true := by
  by_cases ha : ∃ b, a = .handler b
  · obtain ⟨b, rfl⟩ := ha
    cases b with
    | takeEvent =>
      obtain ⟨e, es, hh, -, -⟩ := step_takeEvent h
      exact absurd (hh.symm.trans hs) nofun
    | readyUpdate => exact absurd ((step_readyUpdate h).1.symm.trans hs) nofun
    | publishCommand =>
      obtain ⟨k, hh, -, -⟩ := step_publishCommand h
      exact absurd (hh.symm.trans hs) nofun
    | writeCount =>
      obtain ⟨k, hh, -, -⟩ := step_writeCount h
      exact absurd (hh.symm.trans hs) nofun
    | failedUpdate =>
      obtain ⟨-, rfl⟩ := step_failedUpdate h
      exact .inr rfl
  · left
    rw [step_handler_eq h (fun b hb => ha ⟨b, hb⟩)]
    exact hs

theorem takeEvent_failAhead {l r : List Event} (h : step cfg s (.handler .takeEvent) = some t)
    (hb : s.sandbox.beforeReady = false) (he : s.events = l ++ .failed :: r) (hr : .ready ∉ r) :
    FailAhead t := by
  obtain ⟨e, es, -, hes, rfl⟩ := step_takeEvent h
  rw [he] at hes
  cases l with
  | cons e' l =>
    obtain ⟨rfl, rfl⟩ := List.cons.inj hes
    exact ⟨hb, .inl ⟨l, r, rfl, hr⟩⟩
  | nil =>
    obtain ⟨rfl, rfl⟩ := List.cons.inj hes
    refine ⟨hb, .inr ⟨⟨hb, hr, ?_⟩, ?_⟩⟩
    · change (if s.run.status = .cancelled then Handler.idle else .failedChecked) ≠ _
      split <;> nofun
    · change (if s.run.status = .cancelled then Handler.idle else .failedChecked) = _ ∨ _
      split
      next hc =>
        right
        change s.run.status.terminal = true
        rw [hc]
        rfl
      · exact .inl rfl

theorem step_failAhead {a : Act} (h : step cfg s a = some t) (hs : FailAhead s) : FailAhead t := by
  obtain ⟨hb, ⟨l, r, he, hr⟩ | ⟨hpast, hh⟩⟩ := hs
  · rcases step_events h hb with rfl | ⟨es, hes, hready⟩
    · exact takeEvent_failAhead h hb he hr
    · refine ⟨step_beforeReady h hb, .inl ⟨l, r ++ es, ?_, ?_⟩⟩
      · rw [hes, he, List.append_assoc, List.cons_append]
      · intro hmem
        exact (List.mem_append.mp hmem).elim hr hready
  · refine ⟨step_beforeReady h hb, .inr ⟨step_pastReady h hpast, ?_⟩⟩
    rcases hh with hh | hterm
    · exact step_failedChecked h hh
    · exact .inr (step_terminal (hpast.ne_readyUpdate h) h hterm)

theorem step_started {a : Act} (h : step cfg s a = some t) (hs : RunRow.started s.run) :
    RunRow.started t.run := by
  by_cases ha : a = .handler .readyUpdate
  · subst ha
    obtain ⟨-, rfl⟩ := step_readyUpdate h
    exact .inl rfl
  · rcases hs with hs | hs
    · cases a with
      | sandbox a => obtain ⟨_, _, -, rfl⟩ := step_sandbox h; exact .inl hs
      | command i a =>
        obtain ⟨c, x, run, -, hx, rfl⟩ := step_command h
        exact (stage_step_written hx).2.2 (.inl hs)
      | trigger => cases h; exact .inl hs
      | requestCancel => obtain ⟨n, rfl⟩ := step_requestCancel h; exact .inl hs
      | commitCancel => rw [step_commitCancel h]; exact .inr rfl
      | handler a =>
        cases a with
        | takeEvent => obtain ⟨_, _, -, -, rfl⟩ := step_takeEvent h; exact .inl hs
        | readyUpdate => exact absurd rfl ha
        | publishCommand => obtain ⟨_, -, -, rfl⟩ := step_publishCommand h; exact .inl hs
        | writeCount => obtain ⟨_, -, -, rfl⟩ := step_writeCount h; exact .inl hs
        | failedUpdate => obtain ⟨-, rfl⟩ := step_failedUpdate h; exact .inr rfl
    · exact .inr (step_terminal ha h hs)

theorem step_closeAhead {a : Act} (h : step cfg s a = some t) (hs : CloseAhead s) : CloseAhead t := by
  obtain ⟨hpast, hstarted, hs⟩ := hs
  refine ⟨step_pastReady h hpast, step_started h hstarted, ?_⟩
  rcases hs with hterm | ⟨c, hc, hcl⟩
  · exact .inl (step_terminal (hpast.ne_readyUpdate h) h hterm)
  · obtain ⟨j, hj⟩ := List.mem_iff_getElem?.mp hc
    rcases step_getElem h hj with hj | ⟨b, x, -, hj, hx⟩
    · exact .inr ⟨c, List.mem_of_getElem? hj, hcl⟩
    · rcases stage_step_of_closing hx hcl with hcl | ⟨rate, hrun⟩
      · exact .inr ⟨_, List.mem_of_getElem? hj, hcl⟩
      · left
        rw [hrun]
        exact closeRun_terminal hstarted

theorem publishFailed_failAhead (h : step cfg s (.sandbox .publishFailed) = some t) : FailAhead t := by
  obtain ⟨x, es, hx, rfl⟩ := step_sandbox h
  rcases sandbox_step_failed hx with ⟨-, rfl, hb⟩ | ⟨hne, -⟩
  · exact ⟨(sandbox_step_pastReady hx hb).1, .inl ⟨s.events, [], rfl, nofun⟩⟩
  · exact absurd rfl hne

theorem readCounts_closeAhead {i : ℕ} (hs : Wellformed cfg s)
    (h : step cfg s (.command i .readCounts) = some t)
    (hc : (counts s.run.dispatchedCount s.rows).unfinished = false) : CloseAhead t := by
  have hsome := dispatchedCount_isSome hc
  obtain ⟨n, hn⟩ := Option.isSome_iff_exists.mp hsome
  obtain ⟨c, x, run, hi, hx, rfl⟩ := step_command h
  refine ⟨step_pastReady h (hs.pastReady hsome), step_started h (hs.written n hn).2.2, .inr ?_⟩
  refine ⟨_, List.mem_of_getElem? (List.getElem?_set_self (List.getElem?_eq_some_iff.mp hi).1), ?_⟩
  cases hst : c.stage with
  | answered o =>
    rw [hst] at hx
    simp only [Stage.step, hc, Bool.false_eq_true, ↓reduceIte, Option.some.injEq, Prod.mk.injEq] at hx
    rw [← hx.1]
    rfl
  | _ =>
    rw [hst] at hx
    cases hx

theorem FailAhead.settled (hs : FailAhead s) (hq : Quiescent s) : s.run.status.terminal = true := by
  rcases hs.2 with ⟨l, r, he, -⟩ | ⟨-, hh | hterm⟩
  · rw [hq.events] at he
    simp at he
  · exact absurd (hq.handler.symm.trans hh) nofun
  · exact hterm

theorem CloseAhead.settled (hs : CloseAhead s) (hq : Quiescent s) : s.run.status.terminal = true := by
  rcases hs.2.2 with hterm | ⟨c, hc, hcl⟩
  · exact hterm
  · have hno := hq.results c hc
    cases hst : c.stage <;> simp [hst, Stage.closing, Stage.unhandled] at hcl hno

theorem settles_terminal {aiSession : Bool} {as : List Act}
    (h : exec (step cfg) (.initial aiSession) as = some t) (hq : Quiescent t)
    (hs : Settles cfg (.initial aiSession) as) : t.run.status.terminal = true := by
  rcases hs with hs | ⟨pre, i, post, u, rfl, hu, hc⟩ | ⟨pre, post, rfl, hpost⟩
  · obtain ⟨pre, post, rfl⟩ := List.append_of_mem hs
    obtain ⟨u, -, h⟩ := exec_append_iff.mp h
    obtain ⟨v, hv, h⟩ := Option.bind_eq_some_iff.mp h
    have hahead := exec_invariant (fun _ _ _ hI ht => step_failAhead ht hI) (publishFailed_failAhead hv) h
    exact hahead.settled hq
  · obtain ⟨u', hu', h⟩ := exec_append_iff.mp h
    rw [hu] at hu'
    cases hu'
    obtain ⟨v, hv, h⟩ := Option.bind_eq_some_iff.mp h
    have hwf := exec_wellformed hu (wellformed_initial aiSession)
    have hahead := exec_invariant (fun _ _ _ hI ht => step_closeAhead ht hI)
      (readCounts_closeAhead hwf hv hc) h
    exact hahead.settled hq
  · obtain ⟨u, -, h⟩ := exec_append_iff.mp h
    obtain ⟨v, hv, h⟩ := Option.bind_eq_some_iff.mp h
    have hterm : v.run.status.terminal = true := by
      rw [step_commitCancel hv]
      rfl
    refine exec_stable (P := fun u : State => u.run.status.terminal = true) ?_ hterm h
    refine always_of_forall fun pre' a post' u' t' has _ ht hP => step_terminal ?_ ht hP
    rintro rfl
    apply hpost
    rw [has]
    simp

/-- Once its sandbox has ended and everything published is handled, a run is terminal
exactly when a failed event was published, a result message was counted when the
counts let the run be closed, or a cancel was not overwritten by the ready handler. -/
theorem quiescent_terminal_iff {aiSession : Bool} {as : List Act}
    (h : exec (step cfg) (.initial aiSession) as = some t) (hq : Quiescent t) :
    t.run.status.terminal = true ↔ Settles cfg (.initial aiSession) as :=
  ⟨(owed_exec h).terminal, settles_terminal h hq⟩

/-- The acts up to the ready event, which is handled to its end when nothing is dispatched. -/
def provisionReady : List Act :=
  [.sandbox (.acquire true), .sandbox .preCheck, .sandbox .publishProvisioning, .handler .takeEvent,
   .sandbox .provisionReturns, .sandbox .postCheck, .sandbox .publishReady, .handler .takeEvent,
   .handler .readyUpdate]

/-- A bootstrap run whose agent session finishes: its sandbox is closed, and nothing else
will ever write the run. -/
def sessionFinishes : List Act :=
  provisionReady ++ [.handler .writeCount, .sandbox .pollCancelled, .sandbox (.pollSessions true false),
    .sandbox .publishClosed, .handler .takeEvent]

theorem session_leaves_run_running :
    ∃ t, exec (step (.default 0)) (.initial true) sessionFinishes = some t ∧ Quiescent t ∧
      t.run.status = .running :=
  ⟨⟨⟨.running, some 0, true, none⟩, [], [], .idle, 0, .ended⟩, rfl, ⟨rfl, rfl, rfl, nofun⟩, rfl⟩

theorem quiescent_terminal_provisionFails :
    ∃ as t, exec (step (.default 3)) (.initial false) as = some t ∧ t.run.status.terminal = true := by
  let as : List Act :=
    [.sandbox (.acquire true), .sandbox .preCheck, .sandbox .publishProvisioning, .handler .takeEvent,
     .sandbox .provisionFails, .sandbox .publishFailed, .handler .takeEvent, .handler .failedUpdate]
  have h : exec (step (.default 3)) (.initial false) as =
      some ⟨⟨.failed, none, false, none⟩, [], [], .idle, 0, .ended⟩ := rfl
  refine ⟨as, _, h, (quiescent_terminal_iff h ⟨rfl, rfl, rfl, nofun⟩).mpr (.inl ?_)⟩
  simp [as]

end ReleaseValidation.Lifecycle
