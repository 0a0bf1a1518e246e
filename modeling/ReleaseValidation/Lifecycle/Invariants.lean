import Mathlib.Data.List.Basic
import ReleaseValidation.Lifecycle.System

/-! # Invariants of the life of a run

The ready event is a token: before it is published it belongs to the sandbox
manager, then to the event queue, then to the event handler, and in the end it is
the written dispatched count. There is at most one such token, so a run is set to
running at most once and its commands are dispatched at most once.
-/
namespace ReleaseValidation.Lifecycle
open Store Orchestrator Runs

variable {cfg : Config} {s t : State}

/-! ### What one step does -/

theorem step_sandbox {a : SandboxAct} (h : step cfg s (.sandbox a) = some t) :
    ∃ x es, s.sandbox.step cfg s.run s.rows a = some (x, es) ∧
      t = { s with sandbox := x, events := s.events ++ es } := by
  obtain ⟨⟨x, es⟩, hx, rfl⟩ := Option.map_eq_some_iff.mp h
  exact ⟨x, es, hx, rfl⟩

theorem step_command {i : ℕ} {a : CommandAct} (h : step cfg s (.command i a) = some t) :
    ∃ c x run, s.commands[i]? = some c ∧ c.stage.step cfg.thresholds s.run s.rows a = some (x, run) ∧
      t = { s with commands := s.commands.set i { c with stage := x }, run := run } := by
  obtain ⟨c, hc, h⟩ := Option.bind_eq_some_iff.mp h
  obtain ⟨⟨x, run⟩, hx, rfl⟩ := Option.map_eq_some_iff.mp h
  exact ⟨c, x, run, hc, hx, rfl⟩

theorem step_requestCancel (h : step cfg s .requestCancel = some t) :
    ∃ n, t = { s with cancels := n } := by
  simp only [step, Option.some.injEq] at h
  subst h
  split
  · exact ⟨s.cancels, rfl⟩
  · exact ⟨s.cancels + 1, rfl⟩

theorem step_commitCancel (h : step cfg s .commitCancel = some t) :
    t = { s with run := { s.run with status := .cancelled }, cancels := s.cancels - 1 } := by
  simp only [step] at h
  split at h
  · cases h
  · cases h
    rfl

theorem step_takeEvent (h : step cfg s (.handler .takeEvent) = some t) :
    ∃ e es, s.handler = .idle ∧ s.events = e :: es ∧
      t = { s with
        events := es
        handler := if s.run.status = .cancelled then .idle else .receive e } := by
  simp only [step, handlerStep] at h
  split at h
  next e es hh he =>
    cases h
    exact ⟨e, es, hh, he, rfl⟩
  · cases h

theorem step_readyUpdate (h : step cfg s (.handler .readyUpdate) = some t) :
    s.handler = .readyChecked ∧
      t = { s with run := { s.run with status := .running }, handler := .dispatching 0 } := by
  simp only [step, handlerStep] at h
  split at h
  next hh =>
    cases h
    exact ⟨hh, rfl⟩
  · cases h

theorem step_publishCommand (h : step cfg s (.handler .publishCommand) = some t) :
    ∃ k, s.handler = .dispatching k ∧ k < cfg.toDispatch s.run ∧
      t = { s with
        commands := s.commands ++ [⟨.dispatched, .queued⟩]
        handler := .dispatching (k + 1) } := by
  simp only [step, handlerStep] at h
  split at h
  next k hh =>
    split at h
    next hk =>
      cases h
      exact ⟨k, hh, hk, rfl⟩
    · cases h
  · cases h

theorem step_writeCount (h : step cfg s (.handler .writeCount) = some t) :
    ∃ k, s.handler = .dispatching k ∧ cfg.toDispatch s.run ≤ k ∧
      t = { s with
        run := { s.run with dispatchedCount := some (cfg.toDispatch s.run) }
        handler := .idle } := by
  simp only [step, handlerStep] at h
  split at h
  next k hh =>
    split at h
    · cases h
    next hk =>
      cases h
      exact ⟨k, hh, Nat.le_of_not_lt hk, rfl⟩
  · cases h

theorem step_failedUpdate (h : step cfg s (.handler .failedUpdate) = some t) :
    s.handler = .failedChecked ∧
      t = { s with run := { s.run with status := .failed }, handler := .idle } := by
  simp only [step, handlerStep] at h
  split at h
  next hh =>
    cases h
    exact ⟨hh, rfl⟩
  · cases h

theorem step_sandbox_eq {a : Act} (h : step cfg s a = some t) (ha : ∀ b, a ≠ .sandbox b) :
    t.sandbox = s.sandbox := by
  cases a with
  | sandbox a => exact absurd rfl (ha a)
  | command i a => obtain ⟨_, _, _, -, -, rfl⟩ := step_command h; rfl
  | trigger => cases h; rfl
  | requestCancel => obtain ⟨_, rfl⟩ := step_requestCancel h; rfl
  | commitCancel => rw [step_commitCancel h]
  | handler a =>
    cases a with
    | takeEvent => obtain ⟨_, _, -, -, rfl⟩ := step_takeEvent h; rfl
    | readyUpdate => obtain ⟨-, rfl⟩ := step_readyUpdate h; rfl
    | publishCommand => obtain ⟨_, -, -, rfl⟩ := step_publishCommand h; rfl
    | writeCount => obtain ⟨_, -, -, rfl⟩ := step_writeCount h; rfl
    | failedUpdate => obtain ⟨-, rfl⟩ := step_failedUpdate h; rfl

theorem step_events_eq {a : Act} (h : step cfg s a = some t) (ha : ∀ b, a ≠ .sandbox b)
    (hta : a ≠ .handler .takeEvent) : t.events = s.events := by
  cases a with
  | sandbox a => exact absurd rfl (ha a)
  | command i a => obtain ⟨_, _, _, -, -, rfl⟩ := step_command h; rfl
  | trigger => cases h; rfl
  | requestCancel => obtain ⟨_, rfl⟩ := step_requestCancel h; rfl
  | commitCancel => rw [step_commitCancel h]
  | handler a =>
    cases a with
    | takeEvent => exact absurd rfl hta
    | readyUpdate => obtain ⟨-, rfl⟩ := step_readyUpdate h; rfl
    | publishCommand => obtain ⟨_, -, -, rfl⟩ := step_publishCommand h; rfl
    | writeCount => obtain ⟨_, -, -, rfl⟩ := step_writeCount h; rfl
    | failedUpdate => obtain ⟨-, rfl⟩ := step_failedUpdate h; rfl

theorem step_handler_eq {a : Act} (h : step cfg s a = some t) (ha : ∀ b, a ≠ .handler b) :
    t.handler = s.handler := by
  cases a with
  | sandbox a => obtain ⟨_, _, -, rfl⟩ := step_sandbox h; rfl
  | command i a => obtain ⟨_, _, _, -, -, rfl⟩ := step_command h; rfl
  | trigger => cases h; rfl
  | requestCancel => obtain ⟨_, rfl⟩ := step_requestCancel h; rfl
  | commitCancel => rw [step_commitCancel h]
  | handler a => exact absurd rfl (ha a)

/-- What becomes of the command at index `j`: it stays, or it takes a step of its own. -/
theorem step_getElem {a : Act} {j : ℕ} {c : Command} (h : step cfg s a = some t)
    (hc : s.commands[j]? = some c) :
    t.commands[j]? = some c ∨ ∃ b x, a = .command j b ∧ t.commands[j]? = some { c with stage := x } ∧
      c.stage.step cfg.thresholds s.run s.rows b = some (x, t.run) := by
  have hlt := (List.getElem?_eq_some_iff.mp hc).1
  cases a with
  | sandbox a => obtain ⟨_, _, -, rfl⟩ := step_sandbox h; exact .inl hc
  | command i b =>
    obtain ⟨d, x, run, hd, hx, rfl⟩ := step_command h
    by_cases hij : i = j
    · subst hij
      rw [hc] at hd
      cases hd
      exact .inr ⟨b, x, rfl, by simp [hlt], hx⟩
    · left
      simpa [List.getElem?_set_ne hij] using hc
  | trigger =>
    cases h
    left
    simpa [List.getElem?_append_left hlt] using hc
  | requestCancel => obtain ⟨_, rfl⟩ := step_requestCancel h; exact .inl hc
  | commitCancel => rw [step_commitCancel h]; exact .inl hc
  | handler a =>
    left
    cases a with
    | takeEvent => obtain ⟨_, _, -, -, rfl⟩ := step_takeEvent h; exact hc
    | readyUpdate => obtain ⟨-, rfl⟩ := step_readyUpdate h; exact hc
    | publishCommand =>
      obtain ⟨_, -, -, rfl⟩ := step_publishCommand h
      simpa [List.getElem?_append_left hlt] using hc
    | writeCount => obtain ⟨_, -, -, rfl⟩ := step_writeCount h; exact hc
    | failedUpdate => obtain ⟨-, rfl⟩ := step_failedUpdate h; exact hc

/-- A command leaves the run alone, except when the results handler closes it. -/
theorem stage_step_run {th : Thresholds} {run run' : RunRow} {rows : List TestStatus} {x x' : Stage}
    {a : CommandAct} (h : x.step th run rows a = some (x', run')) :
    run' = run ∨ ∃ o rate, x = .rated o rate ∧ a = .close ∧ x' = .handled o ∧ run' = closeRun th rate run := by
  cases a with
  | close =>
    cases x with
    | rated o rate =>
      cases h
      exact .inr ⟨o, rate, rfl, rfl, rfl, rfl⟩
    | _ => cases h
  | _ =>
    left
    cases x <;> cases h
    rfl

/-- Once the status of a result row is terminal it is never changed. -/
theorem stage_step_row {th : Thresholds} {run run' : RunRow} {rows : List TestStatus} {x x' : Stage}
    {a : CommandAct} {st : TestStatus} (h : x.step th run rows a = some (x', run'))
    (hx : x.row = some st) (hst : st.terminal = true) : x'.row = some st := by
  cases a with
  | readCounts =>
    cases x with
    | answered o =>
      cases h
      split <;> exact hx
    | _ => cases h
  | settle o =>
    cases x with
    | running =>
      cases hx
      cases hst
    | _ => cases h
  | publishResult | readStats | close =>
    cases x <;> cases h
    exact hx
  | consume | insertSkipped | insertRunning =>
    cases x <;> cases h
    cases hx

@[simp] theorem leave_beforeReady (p : Bool) : (Sandbox.leave p).beforeReady = false := by
  cases p <;> rfl

/-- A sandbox publishes the ready event at most once. -/
theorem sandbox_step_readies {run : RunRow} {rows : List TestStatus} {x x' : Sandbox} {a : SandboxAct}
    {es : List Event} (h : x.step cfg run rows a = some (x', es)) :
    x'.beforeReady.toNat + es.count .ready ≤ x.beforeReady.toNat := by
  cases a with
  | unexpected =>
    simp only [Sandbox.step] at h
    split at h
    · cases h
      simp [Sandbox.beforeReady]
    · cases h
  | interrupted =>
    simp only [Sandbox.step] at h
    split at h
    · cases h
      simp
    · cases h
  | publishFailed =>
    cases x <;> cases h
    · simp [Sandbox.beforeReady]
    · simp
  | pollCancelled | pollSessions | expire =>
    cases x <;> simp only [Sandbox.step, reduceCtorEq] at h
    split at h
    · cases h
      repeat' split
      all_goals simp [Sandbox.beforeReady]
    · cases h
  | pollDispatched =>
    cases x <;> simp only [Sandbox.step, reduceCtorEq] at h
    split at h
    · cases h
    · cases h
      simp [Sandbox.beforeReady]
  | acquire | preCheck | postCheck | pollCounts =>
    cases x <;> cases h
    split <;> simp [Sandbox.beforeReady]
  | publishProvisioning | provisionFails | provisionReturns | publishReady | teardownRaises
  | publishClosed =>
    cases x <;> cases h
    simp [Sandbox.beforeReady]

theorem sandbox_step_failed {run : RunRow} {rows : List TestStatus} {x x' : Sandbox} {a : SandboxAct}
    {es : List Event} (h : x.step cfg run rows a = some (x', es)) :
    (a = .publishFailed ∧ es = [.failed] ∧ x.beforeReady = false) ∨
      (a ≠ .publishFailed ∧ .failed ∉ es) := by
  cases a with
  | publishFailed =>
    left
    cases x <;> cases h <;> exact ⟨rfl, rfl, rfl⟩
  | unexpected | interrupted =>
    right
    simp only [Sandbox.step] at h
    split at h
    · cases h
      simp
    · cases h
  | pollCancelled | pollSessions | expire | pollDispatched =>
    right
    cases x <;> simp only [Sandbox.step, reduceCtorEq] at h
    split at h <;> cases h
    simp
  | acquire | preCheck | postCheck | pollCounts | publishProvisioning | provisionFails
  | provisionReturns | publishReady | teardownRaises | publishClosed =>
    right
    cases x <;> cases h
    simp

theorem stage_step_of_closing {th : Thresholds} {run run' : RunRow} {rows : List TestStatus}
    {x x' : Stage} {a : CommandAct} (h : x.step th run rows a = some (x', run')) (hx : x.closing = true) :
    x'.closing = true ∨ ∃ rate, run' = closeRun th rate run := by
  cases a with
  | readStats =>
    cases x <;> cases h
    exact .inl rfl
  | close =>
    cases x with
    | rated o rate =>
      cases h
      exact .inr ⟨rate, rfl⟩
    | _ => cases h
  | consume | insertSkipped | insertRunning | settle | publishResult | readCounts =>
    cases x <;> cases h
    cases hx

theorem stage_step_closing {th : Thresholds} {run run' : RunRow} {rows : List TestStatus} {x x' : Stage}
    {a : CommandAct} (h : x.step th run rows a = some (x', run')) (hx : x'.closing = true) :
    x.closing = true ∨ a = .readCounts ∧ (counts run.dispatchedCount rows).unfinished = false := by
  cases a with
  | readCounts =>
    cases x with
    | answered o =>
      cases h
      split at hx
      · cases hx
      next hc => exact .inr ⟨rfl, Bool.eq_false_iff.mpr hc⟩
    | _ => cases h
  | readStats =>
    cases x <;> cases h
    exact .inl rfl
  | consume cached =>
    cases x <;> cases h
    split at hx
    · cases hx
    · split at hx <;> cases hx
  | insertSkipped | insertRunning | settle | publishResult | close =>
    cases x <;> cases h
    cases hx

/-! ### The invariant -/

def Handler.readies : Handler → ℕ
  | readyChecked | dispatching _ => 1
  | idle | failedChecked => 0

/-- The ready event, counted wherever it can be, from before its publication to the
dispatched count that is written at the end of its handling. -/
def State.readies (s : State) : ℕ :=
  s.sandbox.beforeReady.toNat + s.events.count .ready + s.handler.readies +
    s.run.dispatchedCount.isSome.toNat

/-- How many commands `_dispatch_tests` has published. -/
def State.published (s : State) : ℕ := (s.commands.map Command.origin).count .dispatched

/-- The run has been set to running at some time. -/
def RunRow.started (run : RunRow) : Prop := run.status = .running ∨ run.status.terminal = true

structure Wellformed (cfg : Config) (s : State) : Prop where
  readies : s.readies ≤ 1
  unpublished : s.handler.readies = 0 → s.run.dispatchedCount = none → s.published = 0
  received : s.handler = .readyChecked → s.published = 0
  progress : ∀ k, s.handler = .dispatching k →
    s.published = k ∧ k ≤ cfg.toDispatch s.run ∧ RunRow.started s.run
  written : ∀ n, s.run.dispatchedCount = some n →
    n = cfg.toDispatch s.run ∧ s.published = n ∧ RunRow.started s.run
  closing : ∀ c ∈ s.commands, c.stage.closing = true → s.run.dispatchedCount.isSome = true

theorem wellformed_initial (aiSession : Bool) : Wellformed cfg (.initial aiSession) where
  readies := le_refl 1
  unpublished _ _ := rfl
  received h := by cases h
  progress _ h := by cases h
  written _ h := by cases h
  closing _ h := by cases h

theorem stage_step_written {th : Thresholds} {run run' : RunRow} {rows : List TestStatus} {x x' : Stage}
    {a : CommandAct} (h : x.step th run rows a = some (x', run')) :
    run'.dispatchedCount = run.dispatchedCount ∧ run'.aiSession = run.aiSession ∧
      (RunRow.started run → RunRow.started run') := by
  rcases stage_step_run h with rfl | ⟨o, rate, -, -, -, rfl⟩
  · exact ⟨rfl, rfl, id⟩
  · exact ⟨closeRun_dispatchedCount th rate run, closeRun_aiSession th rate run,
      fun hr => .inr (closeRun_terminal hr)⟩

theorem map_set_eq {α β : Type} {f : α → β} {l : List α} {i : ℕ} {b c : α} (hc : l[i]? = some c)
    (hf : f b = f c) : (l.set i b).map f = l.map f := by
  rw [List.map_set, hf]
  refine List.ext_getElem? fun j => ?_
  rw [List.getElem?_set]
  split
  next h =>
    subst h
    rw [List.getElem?_map, hc]
    simp [(List.getElem?_eq_some_iff.mp hc).1]
  · rfl

theorem countP_set_eq {α : Type} {p : α → Bool} {l : List α} {i : ℕ} {b c : α} (hc : l[i]? = some c)
    (hp : p b = p c) : (l.set i b).countP p = l.countP p := by
  have hmap := congrArg (List.countP id) (map_set_eq (f := p) hc hp)
  rw [List.countP_map, List.countP_map] at hmap
  exact hmap

theorem dispatchedCount_isSome {d : Option ℕ} {rows : List TestStatus}
    (h : (counts d rows).unfinished = false) : d.isSome = true := by
  have hd := (counts_unfinished_eq_false_iff d rows).mp h
  cases d with
  | none => exact absurd hd.1 (by decide)
  | some n => rfl

theorem receive_readies (e : Event) : (Handler.receive e).readies = [e].count .ready := by
  cases e <;> rfl

theorem receive_ne_dispatching (e : Event) (k : ℕ) : Handler.receive e ≠ .dispatching k := by
  cases e <;> intro h <;> cases h

theorem takeEvent_wellformed (h : step cfg s (.handler .takeEvent) = some t) (hs : Wellformed cfg s) :
    Wellformed cfg t := by
  obtain ⟨e, es, hh, he, rfl⟩ := step_takeEvent h
  have h1 := hs.readies
  rw [State.readies, he, List.count_cons, hh, Handler.readies] at h1
  have hidle : s.handler.readies = 0 := by rw [hh, Handler.readies]
  have hsplit : (if s.run.status = .cancelled then Handler.idle else .receive e) = .idle ∨
      (if s.run.status = .cancelled then Handler.idle else .receive e) = .receive e := by
    split
    · exact .inl rfl
    · exact .inr rfl
  refine ⟨?_, fun _ => hs.unpublished hidle, ?_, ?_, hs.written, hs.closing⟩
  · simp only [State.readies]
    rcases hsplit with hn | hn
    · rw [hn, Handler.readies]
      omega
    · rw [hn, receive_readies, List.count_singleton]
      omega
  · intro hr
    apply hs.unpublished hidle
    change (if s.run.status = .cancelled then Handler.idle else .receive e) = .readyChecked at hr
    rcases hsplit with hn | hn
    · rw [hn] at hr
      cases hr
    · rw [hn] at hr
      cases e with
      | ready =>
        cases hd : s.run.dispatchedCount with
        | none => rfl
        | some n =>
          simp [hd] at h1
      | provisioning | failed | closed => cases hr
  · intro k hk
    change (if s.run.status = .cancelled then Handler.idle else .receive e) = .dispatching k at hk
    rcases hsplit with hn | hn
    · rw [hn] at hk
      cases hk
    · rw [hn] at hk
      exact absurd hk (receive_ne_dispatching e k)

theorem Wellformed.unwritten (hs : Wellformed cfg s) (h : s.handler.readies = 1) :
    s.run.dispatchedCount = none := by
  have h1 := hs.readies
  rw [State.readies, h] at h1
  cases hd : s.run.dispatchedCount with
  | none => rfl
  | some n =>
    rw [hd] at h1
    simp only [Option.isSome_some, Bool.toNat_true] at h1
    omega

theorem handler_wellformed {a : HandlerAct} (h : step cfg s (.handler a) = some t)
    (hs : Wellformed cfg s) : Wellformed cfg t := by
  cases a with
  | takeEvent => exact takeEvent_wellformed h hs
  | readyUpdate =>
    obtain ⟨hh, rfl⟩ := step_readyUpdate h
    have h1 := hs.readies
    rw [State.readies, hh] at h1
    refine ⟨h1, nofun, nofun, ?_, ?_, hs.closing⟩
    · intro k hk
      cases hk
      exact ⟨hs.received hh, Nat.zero_le _, .inl rfl⟩
    · intro n hn
      exact ⟨(hs.written n hn).1, (hs.written n hn).2.1, .inl rfl⟩
  | publishCommand =>
    obtain ⟨k, hh, hk, rfl⟩ := step_publishCommand h
    have h1 := hs.readies
    rw [State.readies, hh] at h1
    have hnone := hs.unwritten (by rw [hh, Handler.readies])
    refine ⟨h1, nofun, nofun, ?_, ?_, ?_⟩
    · intro k' hk'
      cases hk'
      obtain ⟨hp, -, hst⟩ := hs.progress k hh
      refine ⟨?_, hk, hst⟩
      simp only [State.published, List.map_append, List.count_append] at hp ⊢
      rw [hp]
      rfl
    · intro n hn
      exact absurd (hnone.symm.trans hn) (by simp)
    · intro c hc hcl
      rcases List.mem_append.mp hc with hc | hc
      · exact hs.closing c hc hcl
      · rw [List.mem_singleton.mp hc] at hcl
        cases hcl
  | writeCount =>
    obtain ⟨k, hh, hk, rfl⟩ := step_writeCount h
    have h1 := hs.readies
    obtain ⟨hp, hle, hst⟩ := hs.progress k hh
    refine ⟨?_, nofun, nofun, nofun, ?_, ?_⟩
    · simp only [State.readies, hh, Handler.readies, Option.isSome_some, Bool.toNat_true] at h1 ⊢
      omega
    · intro n hn
      cases hn
      exact ⟨rfl, hp.trans (Nat.le_antisymm hle hk), hst⟩
    · intro _ _ _
      rfl
  | failedUpdate =>
    obtain ⟨hh, rfl⟩ := step_failedUpdate h
    have h1 := hs.readies
    rw [State.readies, hh] at h1
    refine ⟨h1, fun _ => hs.unpublished (by rw [hh, Handler.readies]), nofun, nofun, ?_, hs.closing⟩
    intro n hn
    exact ⟨(hs.written n hn).1, (hs.written n hn).2.1, .inr rfl⟩

theorem command_wellformed {i : ℕ} {a : CommandAct} (h : step cfg s (.command i a) = some t)
    (hs : Wellformed cfg s) : Wellformed cfg t := by
  obtain ⟨c, x, run, hc, hx, rfl⟩ := step_command h
  obtain ⟨hcount, hai, hstarted⟩ := stage_step_written hx
  have hpub : ((s.commands.set i { c with stage := x }).map Command.origin).count .dispatched =
      s.published := by
    rw [map_set_eq hc]
    · rfl
    · rfl
  have hto : cfg.toDispatch run = cfg.toDispatch s.run := by simp only [Config.toDispatch, hai]
  refine ⟨?_, ?_, ?_, ?_, ?_, ?_⟩
  · have h1 := hs.readies
    simp only [State.readies, hcount] at h1 ⊢
    exact h1
  · intro hh hn
    exact hpub.trans (hs.unpublished hh (hcount ▸ hn))
  · intro hh
    exact hpub.trans (hs.received hh)
  · intro k hk
    obtain ⟨hp, hle, hst⟩ := hs.progress k hk
    exact ⟨hpub.trans hp, hto ▸ hle, hstarted hst⟩
  · intro n hn
    obtain ⟨he, hp, hst⟩ := hs.written n (hcount ▸ hn)
    exact ⟨he.trans hto.symm, hpub.trans hp, hstarted hst⟩
  · intro d hd hcl
    change run.dispatchedCount.isSome = true
    rw [hcount]
    rcases List.mem_or_eq_of_mem_set hd with hd | rfl
    · exact hs.closing d hd hcl
    · rcases stage_step_closing hx hcl with hcl | ⟨-, hcl⟩
      · exact hs.closing c (List.mem_of_getElem? hc) hcl
      · exact dispatchedCount_isSome hcl

theorem step_wellformed {a : Act} (h : step cfg s a = some t) (hs : Wellformed cfg s) :
    Wellformed cfg t := by
  cases a with
  | sandbox a =>
    obtain ⟨x, es, hx, rfl⟩ := step_sandbox h
    refine ⟨?_, hs.unpublished, hs.received, hs.progress, hs.written, hs.closing⟩
    have hle := sandbox_step_readies hx
    have h1 := hs.readies
    simp only [State.readies, List.count_append] at h1 ⊢
    omega
  | command i a => exact command_wellformed h hs
  | handler a => exact handler_wellformed h hs
  | trigger =>
    cases h
    have hpub : ((s.commands ++ [(⟨.triggered, .queued⟩ : Command)]).map Command.origin).count
        .dispatched = s.published := by
      rw [List.map_append, List.count_append]
      rfl
    refine ⟨hs.readies, ?_, ?_, ?_, ?_, ?_⟩
    · exact fun hh hn => hpub.trans (hs.unpublished hh hn)
    · exact fun hh => hpub.trans (hs.received hh)
    · exact fun k hk => ⟨hpub.trans (hs.progress k hk).1, (hs.progress k hk).2⟩
    · exact fun n hn => ⟨(hs.written n hn).1, hpub.trans (hs.written n hn).2.1, (hs.written n hn).2.2⟩
    · intro c hc hcl
      rcases List.mem_append.mp hc with hc | hc
      · exact hs.closing c hc hcl
      · rw [List.mem_singleton.mp hc] at hcl
        cases hcl
  | requestCancel =>
    obtain ⟨n, rfl⟩ := step_requestCancel h
    exact ⟨hs.readies, hs.unpublished, hs.received, hs.progress, hs.written, hs.closing⟩
  | commitCancel =>
    rw [step_commitCancel h]
    refine ⟨hs.readies, hs.unpublished, hs.received, ?_, ?_, hs.closing⟩
    · intro k hk
      exact ⟨(hs.progress k hk).1, (hs.progress k hk).2.1, .inr rfl⟩
    · intro n hn
      exact ⟨(hs.written n hn).1, (hs.written n hn).2.1, .inr rfl⟩

theorem step_count {a : Act} {n : ℕ} (h : step cfg s a = some t) (hs : Wellformed cfg s)
    (hn : s.run.dispatchedCount = some n) : t.run.dispatchedCount = some n := by
  cases a with
  | sandbox a => obtain ⟨_, _, -, rfl⟩ := step_sandbox h; exact hn
  | command i a =>
    obtain ⟨c, x, run, -, hx, rfl⟩ := step_command h
    exact (stage_step_written hx).1.trans hn
  | trigger => cases h; exact hn
  | requestCancel => obtain ⟨_, rfl⟩ := step_requestCancel h; exact hn
  | commitCancel => rw [step_commitCancel h]; exact hn
  | handler a =>
    cases a with
    | takeEvent => obtain ⟨_, _, -, -, rfl⟩ := step_takeEvent h; exact hn
    | readyUpdate => obtain ⟨-, rfl⟩ := step_readyUpdate h; exact hn
    | publishCommand => obtain ⟨_, -, -, rfl⟩ := step_publishCommand h; exact hn
    | writeCount =>
      obtain ⟨k, hh, -, -⟩ := step_writeCount h
      have hnone := hs.unwritten (by rw [hh, Handler.readies])
      exact absurd (hnone.symm.trans hn) nofun
    | failedUpdate => obtain ⟨-, rfl⟩ := step_failedUpdate h; exact hn

theorem step_closing_mem {a : Act} {d : Command} (h : step cfg s a = some t) (hd : d ∈ t.commands)
    (hcl : d.stage.closing = true) : d ∈ s.commands ∨ ∃ i b c x, a = .command i b ∧ c ∈ s.commands ∧
      c.stage.step cfg.thresholds s.run s.rows b = some (x, t.run) ∧ d = { c with stage := x } := by
  cases a with
  | sandbox a => obtain ⟨_, _, -, rfl⟩ := step_sandbox h; exact .inl hd
  | command i b =>
    obtain ⟨c, x, run, hc, hx, rfl⟩ := step_command h
    rcases List.mem_or_eq_of_mem_set hd with hd | rfl
    · exact .inl hd
    · exact .inr ⟨i, b, c, x, rfl, List.mem_of_getElem? hc, hx, rfl⟩
  | trigger =>
    cases h
    rcases List.mem_append.mp hd with hd | hd
    · exact .inl hd
    · rw [List.mem_singleton.mp hd] at hcl
      cases hcl
  | requestCancel => obtain ⟨_, rfl⟩ := step_requestCancel h; exact .inl hd
  | commitCancel => rw [step_commitCancel h] at hd; exact .inl hd
  | handler a =>
    cases a with
    | takeEvent => obtain ⟨_, _, -, -, rfl⟩ := step_takeEvent h; exact .inl hd
    | readyUpdate => obtain ⟨-, rfl⟩ := step_readyUpdate h; exact .inl hd
    | publishCommand =>
      obtain ⟨_, -, -, rfl⟩ := step_publishCommand h
      rcases List.mem_append.mp hd with hd | hd
      · exact .inl hd
      · rw [List.mem_singleton.mp hd] at hcl
        cases hcl
    | writeCount => obtain ⟨_, -, -, rfl⟩ := step_writeCount h; exact .inl hd
    | failedUpdate => obtain ⟨-, rfl⟩ := step_failedUpdate h; exact .inl hd

theorem exec_wellformed {as : List Act} (h : exec (step cfg) s as = some t) (hs : Wellformed cfg s) :
    Wellformed cfg t :=
  exec_invariant (fun _ _ _ hu ht => step_wellformed ht hu) hs h

theorem exec_written {aiSession : Bool} {as : List Act}
    (h : exec (step cfg) (.initial aiSession) as = some t) (hw : Act.handler .writeCount ∈ as) :
    t.run.dispatchedCount.isSome = true := by
  obtain ⟨pre, post, rfl⟩ := List.append_of_mem hw
  obtain ⟨u, hu, h⟩ := exec_append_iff.mp h
  obtain ⟨v, hv, h⟩ := Option.bind_eq_some_iff.mp h
  have hwf := step_wellformed hv (exec_wellformed hu (wellformed_initial aiSession))
  have hwritten : ∃ n, v.run.dispatchedCount = some n := by
    obtain ⟨_, -, -, rfl⟩ := step_writeCount hv
    exact ⟨_, rfl⟩
  obtain ⟨n, hn⟩ := hwritten
  have hend := exec_invariant (I := fun u => Wellformed cfg u ∧ u.run.dispatchedCount = some n)
    (fun _ _ _ hI ht => ⟨step_wellformed ht hI.1, step_count ht hI.1 hI.2⟩) ⟨hwf, hn⟩ h
  rw [hend.2]
  rfl

end ReleaseValidation.Lifecycle
