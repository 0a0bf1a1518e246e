import ReleaseValidation.AiAgent.Sessions

/-! # Terminal statuses of a session stand

Only a cancel is at risk. The manager looks at the status in the rounds of its bootstrap
and nowhere else, while the switch to active and every save write the status whatever
it is.
-/
namespace ReleaseValidation.AiAgent
open Store Parties Runs
variable {φ : Type}

/-- No terminal status of a session becomes a different one. -/
def Absorbing (s : State φ) (_ : Act φ) (t : State φ) : Prop :=
  ∀ (i : ℕ) (x y : Session φ), s.sessions[i]? = some x → t.sessions[i]? = some y →
    x.row.status.terminal = true → y.row.status = x.row.status

namespace Session

/-- Its manager has still to look at the status before it writes one. -/
def checks (x : Session φ) : Bool :=
  match x.phase with
  | .queued => x.request.bootstraps
  | .bootstrapping => true
  | _ => false

/-- A cancel that takes effect comes before a check or after the end, and a bootstrap
whose session is aborted neither runs out of time nor fails before its next check. -/
def inTime (x : Session φ) : Event φ → Bool
  | .cancel => !x.row.status.live || x.checks || x.phase.isEnded
  | .timeOut | .raise => x.row.status ≠ .aborted || !x.checks
  | _ => true

/-- A bootstrap has a run to wait for, and a terminal status is that of a session which has
ended or which will find itself aborted. -/
structure Standing (x : Session φ) : Prop where
  run : x.checks = true → x.request.runId ≠ none
  settled : x.row.status.terminal = true → x.phase.isEnded = true ∨ x.row.status = .aborted ∧ x.checks = true

end Session

/-- Every cancel comes in time. -/
def CancelsInTime (s : State φ) : Act φ → State φ → Prop
  | .create .., _ => True
  | .at i e, _ => ∀ x ∈ s.sessions[i]?, x.inTime e = true

instance (s : State φ) : ∀ (a : Act φ) (t : State φ), Decidable (CancelsInTime s a t)
  | .create .., _ => inferInstanceAs (Decidable True)
  | .at i e, _ => inferInstanceAs (Decidable (∀ x ∈ s.sessions[i]?, x.inTime e = true))

namespace Session
variable {x y : Session φ} {findings gs : List φ} {e : Event φ}

theorem standing_created (b : SessionBody) (newRun : Uuid) : (created b newRun : Session φ).Standing where
  run h := by
    have hb : b.bootstraps = true := by
      simp only [checks, created, SessionRequest.bootstraps, Bool.and_eq_true] at h
      exact h.1
    simp [created, hb]
  settled h := by
    unfold created at h
    split at h <;> cases h

/-- A session whose status is not terminal stands. -/
theorem standing_of_open (hrun : y.checks = true → y.request.runId ≠ none) (hopen : y.row.status.terminal = false) :
    y.Standing :=
  ⟨hrun, fun h => absurd (h.symm.trans hopen) nofun⟩

theorem standing_of_ended (hended : y.phase.isEnded = true) : y.Standing where
  run h := by
    unfold checks at h
    cases hy : y.phase <;> rw [hy] at h hended <;> first | (cases hended; done) | cases h
  settled _ := .inl hended

theorem Standing.open (hx : x.Standing) (hphase : x.phase.isEnded = false)
    (h : x.checks = false ∨ x.row.status ≠ .aborted) : x.row.status.terminal = false := by
  cases hterm : x.row.status.terminal with
  | false => rfl
  | true =>
    rcases hx.settled hterm with hended | ⟨haborted, hchecks⟩
    · cases hphase.symm.trans hended
    · rcases h with h | h
      · cases h.symm.trans hchecks
      · exact absurd haborted h

theorem cancel_standing (hx : x.Standing) (ht : x.inTime .cancel = true) :
    x.cancel.Standing ∧ (x.row.status.terminal = true → x.cancel.row.status = x.row.status) := by
  unfold cancel
  split
  next hlive =>
    constructor
    · refine ⟨hx.run, fun _ => ?_⟩
      rw [inTime, hlive, Bool.not_true, Bool.false_or, Bool.or_eq_true] at ht
      exact ht.symm.imp_right fun hchecks => ⟨rfl, hchecks⟩
    · intro hterm
      cases hs : x.row.status <;> rw [hs] at hlive hterm <;> cases hlive <;> cases hterm
  · exact ⟨hx, fun _ => rfl⟩

/-- A manager past its checks writes over a status that is not terminal. -/
theorem Standing.late (hx : x.Standing) {p : Phase φ} (hp : x.phase = p) (hended : p.isEnded = false)
    (hqueued : p ≠ .queued) (hboot : p ≠ .bootstrapping) : x.row.status.terminal = false := by
  refine hx.open (by rw [hp]; exact hended) (.inl ?_)
  unfold checks
  rw [hp]
  split
  · exact absurd rfl hqueued
  · exact absurd rfl hboot
  · rfl

theorem start_standing (hp : x.phase = .queued) (hx : x.Standing) :
    (x.goTo (if x.request.bootstraps then .bootstrapping else .preparing .loadSandboxPorts)).Standing := by
  cases hboot : x.request.bootstraps with
  | false =>
    refine standing_of_open nofun (hx.open (by rw [hp]; rfl) (.inl ?_))
    rw [checks, hp]
    exact hboot
  | true =>
    have hchecks : x.checks = true := by
      rw [checks, hp]
      exact hboot
    refine ⟨fun _ => hx.run hchecks, fun hterm => .inr ⟨?_, rfl⟩⟩
    rcases hx.settled hterm with hended | ⟨haborted, -⟩
    · rw [hp] at hended
      cases hended
    · exact haborted

theorem write_standing (x : Session φ) (kind : SaveKind) (saved : List φ) : (x.write kind saved).Standing := by
  cases kind with
  | interim =>
    refine standing_of_open ?_ rfl
    unfold checks write Phase.afterSave
    cases x.request.mode <;> exact nofun
  | completed => exact standing_of_ended rfl
  | bootstrapFailed => exact standing_of_ended rfl
  | crashed => exact standing_of_ended rfl

theorem Moves.standing (h : Moves x findings e y gs) (hx : x.Standing) (ht : x.inTime e = true) :
    y.Standing ∧ (x.row.status.terminal = true → y.row.status = x.row.status) := by
  have hwrite : x.row.status.terminal = false → x.row.status.terminal = true → y.row.status = x.row.status :=
    fun hopen hterm => absurd (hterm.symm.trans hopen) nofun
  -- an exception or the end of its time cannot hit a bootstrap that is aborted
  have hbootstrap : x.phase = .bootstrapping → e = .timeOut ∨ e = .raise → x.row.status.terminal = false := by
    intro hp he
    refine hx.open (by rw [hp]; rfl) (.inr ?_)
    rcases he with rfl | rfl <;> simpa [inTime, checks, hp] using ht
  cases h with
  | cancel => exact cancel_standing hx ht
  | start hp => exact ⟨start_standing hp hx, fun _ => rfl⟩
  | pollNoRun seen hp hrun => exact absurd hrun (hx.run (by rw [checks, hp]))
  | pollAborted seen hp hs => exact ⟨standing_of_ended rfl, fun _ => rfl⟩
  | pollWaiting hp hs => exact ⟨hx, fun _ => rfl⟩
  | pollReady sandboxId hp hs =>
    exact ⟨standing_of_open nofun (hx.open (by rw [hp]; rfl) (.inr hs)), fun _ => rfl⟩
  | pollFailed hp hs =>
    exact ⟨standing_of_open nofun (hx.open (by rw [hp]; rfl) (.inr hs)), fun _ => rfl⟩
  | bootstrapTimesOut hp => exact ⟨standing_of_open nofun (hbootstrap hp (.inl rfl)), fun _ => rfl⟩
  | messagesTimeOut hp =>
    rcases hp with hp | hp
    · exact ⟨standing_of_open nofun (hx.late hp rfl nofun nofun), fun _ => rfl⟩
    · exact ⟨standing_of_open nofun (hx.late hp rfl nofun nofun), fun _ => rfl⟩
  | activate sandboxId hp => exact ⟨standing_of_open nofun rfl, hwrite (hx.late hp rfl nofun nofun)⟩
  | prepare stage next hp hnext => exact ⟨standing_of_open nofun (hx.late hp rfl nofun nofun), fun _ => rfl⟩
  | prepared stage hp hnext => exact ⟨standing_of_open nofun (hx.late hp rfl nofun nofun), fun _ => rfl⟩
  | write kind saved hp => exact ⟨write_standing x kind saved, hwrite (hx.late hp rfl nofun nofun)⟩
  | loopReturns hp => exact ⟨standing_of_open nofun (hx.late hp rfl nofun nofun), fun _ => rfl⟩
  | saveCrashed hp => exact ⟨standing_of_open nofun (hx.late hp rfl nofun nofun), fun _ => rfl⟩
  | saveFinished hp => exact ⟨standing_of_open nofun (hx.late hp rfl nofun nofun), fun _ => rfl⟩
  | answered hp =>
    rcases hp with hp | hp
    · exact ⟨standing_of_open nofun (hx.late hp rfl nofun nofun), fun _ => rfl⟩
    · exact ⟨standing_of_open nofun (hx.late hp rfl nofun nofun), fun _ => rfl⟩
  | saveClosing hp => exact ⟨standing_of_open nofun (hx.late hp rfl nofun nofun), fun _ => rfl⟩
  | bootstrapRaises hp =>
    rcases hp with hp | ⟨sandboxId, hp⟩
    · exact ⟨standing_of_open nofun (hbootstrap hp (.inr rfl)), fun _ => rfl⟩
    · exact ⟨standing_of_open nofun (hx.late hp rfl nofun nofun), fun _ => rfl⟩
  | loopRaises hp => exact ⟨standing_of_open nofun (hx.late hp rfl nofun nofun), fun _ => rfl⟩
  | escapes hp => exact ⟨standing_of_ended rfl, fun _ => rfl⟩
  | report finding hp => exact ⟨⟨hx.run, hx.settled⟩, fun _ => rfl⟩
  | receive hp => exact ⟨standing_of_open nofun (hx.late hp rfl nofun nofun), fun _ => rfl⟩
  | leave hp => exact ⟨standing_of_open nofun (hx.late hp rfl nofun nofun), fun _ => rfl⟩

end Session

section Runs
variable {s t : State φ} {a : Act φ}

theorem step_standing (h : step s a = some t) (hs : Each (fun _ x => x.Standing) s.sessions)
    (ha : CancelsInTime s a t) : Each (fun _ x => x.Standing) t.sessions := by
  intro j y hj
  rcases step_cases h hj with ⟨b, newRun, -, rfl⟩ | ⟨e, x, rfl, hx, hy⟩ | ⟨hy, -⟩
  · exact Session.standing_created b newRun
  · exact ((Session.step_moves hy).standing (hs j x hx) (ha x hx)).1
  · exact hs j y hy

theorem step_absorbing (h : step s a = some t) (hs : Each (fun _ x => x.Standing) s.sessions)
    (ha : CancelsInTime s a t) : Absorbing s a t := by
  intro i x y hx hy hterm
  rcases step_session h hx with ⟨e, z, rfl, hz, hget⟩ | ⟨hget, -⟩
  · cases hget.symm.trans hy
    exact ((Session.step_moves hz).standing (hs i x hx) (ha x hx)).2 hterm
  · cases hget.symm.trans hy
    rfl

end Runs

/-- In every run whose cancels come in time, terminal statuses stand. -/
theorem statuses_absorbing {as : List (Act φ)} (h : Always step CancelsInTime initial as) :
    Always step Absorbing initial as := by
  refine always_of_invariant (I := fun s => Each (fun _ x => x.Standing) s.sessions) ?_ ?_ h
  · exact fun s a t hs ht ha => ⟨step_absorbing ht hs ha, step_standing ht hs ha⟩
  · exact fun i x hx => by cases hx

/-- An autonomous session with a goal. -/
def goalBody (sandboxId : Option Uuid) : SessionBody :=
  ⟨.autonomous, .runner, none, sandboxId, some "check the release", [], sandboxId.isNone⟩

/-- The session is cancelled while its sandbox is being provisioned. -/
def cancelledBootstrap : List (Act String) :=
  .create (goalBody none) "run-1" :: onSession 0 [.start, .poll .waiting, .cancel, .poll .waiting]

theorem statuses_absorbing_bootstrap :
    (exec step initial cancelledBootstrap).map (fun s => s.sessions.map (·.row.status)) = some [.aborted] ∧
      Always step Absorbing initial cancelledBootstrap :=
  ⟨by decide +kernel, statuses_absorbing (by decide +kernel)⟩

/-- The session is cancelled while its loop is running, which then comes to its end. -/
def cancelledAtWork : List (Act String) :=
  .create (goalBody (some "sbx-1")) "run-1" ::
    onSession 0 (.start :: List.replicate 6 .advance ++ .cancel :: List.replicate 2 .advance)

theorem aborted_overwritten : ¬ Always step Absorbing initial (cancelledAtWork ++ [.at 0 .advance]) := by
  intro h
  have hrun : (exec step initial cancelledAtWork).bind
      (fun u => (step u (.at 0 .advance)).bind fun t => u.sessions[0]?.bind fun x => t.sessions[0]?.map fun y =>
        (x.row.status, y.row.status)) = some (.aborted, .completed) := by decide +kernel
  obtain ⟨u, hu, hrest⟩ := Option.bind_eq_some_iff.mp hrun
  obtain ⟨t, ht, hrest⟩ := Option.bind_eq_some_iff.mp hrest
  obtain ⟨x, hx, hrest⟩ := Option.bind_eq_some_iff.mp hrest
  obtain ⟨y, hy, hstatus⟩ := Option.map_eq_some_iff.mp hrest
  obtain ⟨hxs, hys⟩ := Prod.mk.inj hstatus
  have hsame := h.at hu ht 0 x y hx hy (by rw [hxs]; rfl)
  rw [hxs, hys] at hsame
  cases hsame

/-! ### Every other cancel can be overwritten -/

/-- Some further steps of the session at `i` change a terminal status. -/
def Overwritten (s : State φ) (i : ℕ) : Prop := ∃ es : List (Event φ), ¬ Always step Absorbing s (onSession i es)

section Doomed
variable {x y : Session φ}

/-- The session is aborted, and its manager can go on until it writes another status. -/
def Session.Doomed (x : Session φ) : Prop :=
  x.row.status = .aborted → ∀ (s : State φ) (i : ℕ), s.sessions[i]? = some x → Overwritten s i

theorem doomed_of_step (e : Event φ) (h : ∀ findings, ∃ y gs, x.step findings e = some (y, gs) ∧
    y.row.status = x.row.status ∧ y.Doomed) : x.Doomed := by
  intro haborted s i hi
  obtain ⟨y, gs, hy, hstatus, hdoomed⟩ := h s.findings
  obtain ⟨es, hes⟩ := hdoomed (hstatus.trans haborted) ⟨s.sessions.set i y, gs⟩ i (getElem?_set_of_some hi)
  refine ⟨e :: es, fun halways => hes ?_⟩
  exact (halways _ (step_at_eq_some.mpr ⟨x, y, gs, hi, hy, rfl⟩)).2

theorem doomed_of_write (h : ∀ findings, ∃ y, x.advance findings = some y ∧ y.row.status ≠ .aborted) : x.Doomed := by
  intro haborted s i hi
  obtain ⟨y, hy, hstatus⟩ := h s.findings
  refine ⟨[.advance], fun halways => hstatus ?_⟩
  have hstep : step s (.at i .advance) = some ⟨s.sessions.set i y, s.findings⟩ :=
    step_at_eq_some.mpr ⟨x, y, s.findings, hi, by rw [Session.step, hy]; rfl, rfl⟩
  have hsame := (halways _ hstep).1 i x y hi (getElem?_set_of_some hi) (by rw [haborted]; rfl)
  rw [hsame, haborted]

/-- The current step succeeds and leaves the row as it is. -/
theorem doomed_of_advance (h : ∀ findings, ∃ y, x.advance findings = some y ∧ y.row.status = x.row.status ∧ y.Doomed) :
    x.Doomed := by
  refine doomed_of_step .advance fun findings => ?_
  obtain ⟨y, hy, hrest⟩ := h findings
  exact ⟨y, findings, by rw [Session.step, hy]; rfl, hrest⟩

theorem doomed_saving {kind : SaveKind} {saved : List φ} (hp : x.phase = .saving kind saved) : x.Doomed := by
  refine doomed_of_write fun findings => ⟨x.write kind saved, by rw [Session.advance, hp], ?_⟩
  cases kind <;> exact nofun

theorem doomed_lastStage {stage : Stage} (hp : x.phase = .preparing stage) (hnext : x.request.nextStage stage = none) :
    x.Doomed :=
  doomed_of_advance fun findings =>
    ⟨x.save .interim findings, by simp only [Session.advance, hp, hnext], rfl, doomed_saving rfl⟩

theorem doomed_nextStage {stage next : Stage} (hp : x.phase = .preparing stage)
    (hnext : x.request.nextStage stage = some next) (h : (x.goTo (.preparing next)).Doomed) : x.Doomed :=
  doomed_of_advance fun _ => ⟨x.goTo (.preparing next), by simp only [Session.advance, hp, hnext], rfl, h⟩

theorem doomed_preparing {stage : Stage} (hp : x.phase = .preparing stage) : x.Doomed := by
  have hplan : ∀ z : Session φ, z.phase = .preparing .manualPlanMessage → z.Doomed :=
    fun z hz => doomed_lastStage hz rfl
  have hprovenance : ∀ z : Session φ, z.phase = .preparing .loadProvenance → z.Doomed := by
    intro z hz
    cases hnext : z.request.nextStage .loadProvenance with
    | none => exact doomed_lastStage hz hnext
    | some next =>
      have hnextPlan : next = .manualPlanMessage := by
        simp only [SessionRequest.nextStage, Option.ite_none_right_eq_some, Option.some_inj] at hnext
        exact hnext.2.symm
      exact doomed_nextStage hz hnext (hplan _ (by rw [hnextPlan]; rfl))
  have hloop : ∀ z : Session φ, z.phase = .preparing .makeAgentLoop → z.Doomed :=
    fun z hz => doomed_nextStage hz rfl (hprovenance _ rfl)
  have hcredentials : ∀ z : Session φ, z.phase = .preparing .loadCredentials → z.Doomed :=
    fun z hz => doomed_nextStage hz rfl (hloop _ rfl)
  have hprompt : ∀ z : Session φ, z.phase = .preparing .buildSystemPrompt → z.Doomed :=
    fun z hz => doomed_nextStage hz rfl (hcredentials _ rfl)
  cases stage with
  | loadSandboxPorts => exact doomed_nextStage hp rfl (hprompt _ rfl)
  | buildSystemPrompt => exact hprompt x hp
  | loadCredentials => exact hcredentials x hp
  | makeAgentLoop => exact hloop x hp
  | loadProvenance => exact hprovenance x hp
  | manualPlanMessage => exact hplan x hp

theorem doomed_finished (hp : x.phase = .finished) : x.Doomed :=
  doomed_of_advance fun findings => ⟨x.save .completed findings, by rw [Session.advance, hp], rfl, doomed_saving rfl⟩

theorem doomed_closing (hp : x.phase = .closing) : x.Doomed :=
  doomed_of_advance fun findings =>
    ⟨{ x.save .completed findings with summary := some findings }, by rw [Session.advance, hp], rfl, doomed_saving rfl⟩

theorem doomed_listening (hp : x.phase = .listening) : x.Doomed :=
  doomed_of_step .leave fun findings =>
    ⟨x.goTo .closing, findings, by rw [Session.step, Session.hear, hp]; rfl, rfl, doomed_closing rfl⟩

/-- A session that neither checks its status again nor has ended. -/
theorem doomed_of_late (hchecks : x.checks = false) (hended : x.phase.isEnded = false) : x.Doomed := by
  cases hp : x.phase with
  | queued =>
    have hboot : x.request.bootstraps = false := by simpa only [Session.checks, hp] using hchecks
    refine doomed_of_step .start fun findings => ⟨x.goTo (.preparing .loadSandboxPorts), [], ?_, rfl, doomed_preparing rfl⟩
    simp only [Session.step, Session.start, hp, hboot]
    rfl
  | bootstrapping => rw [Session.checks, hp] at hchecks; cases hchecks
  | activating sandboxId =>
    exact doomed_of_write fun _ => ⟨x.activate sandboxId, by rw [Session.advance, hp], by simp [Session.activate]⟩
  | preparing stage => exact doomed_preparing hp
  | saving kind saved => exact doomed_saving hp
  | running =>
    exact doomed_of_advance fun findings =>
      ⟨{ x.goTo .finished with summary := some findings }, by rw [Session.advance, hp], rfl, doomed_finished rfl⟩
  | crashed =>
    exact doomed_of_advance fun findings => ⟨x.save .crashed findings, by rw [Session.advance, hp], rfl, doomed_saving rfl⟩
  | finished => exact doomed_finished hp
  | kickoff => exact doomed_of_advance fun _ => ⟨x.goTo .listening, by rw [Session.advance, hp], rfl, doomed_listening rfl⟩
  | listening => exact doomed_listening hp
  | answering => exact doomed_of_advance fun _ => ⟨x.goTo .listening, by rw [Session.advance, hp], rfl, doomed_listening rfl⟩
  | closing => exact doomed_closing hp
  | ended raised => rw [hp] at hended; cases hended

end Doomed

/-- After a cancel that comes too late, the session can go on to write another status. -/
theorem late_cancel_overwritten {s : State φ} {i : ℕ} {x : Session φ} (hi : s.sessions[i]? = some x)
    (hlate : x.inTime .cancel = false) : ∃ t, step s (.at i .cancel) = some t ∧ Overwritten t i := by
  simp only [Session.inTime, Bool.or_eq_false_iff, Bool.not_eq_false'] at hlate
  obtain ⟨⟨hlive, hchecks⟩, hended⟩ := hlate
  have hcancel : x.cancel = { x with row := { x.row with status := .aborted } } := if_pos hlive
  refine ⟨_, step_at_eq_some.mpr ⟨x, x.cancel, s.findings, hi, rfl, rfl⟩, ?_⟩
  refine doomed_of_late (x := x.cancel) ?_ ?_ ?_ _ i (getElem?_set_of_some hi)
  · rw [hcancel]; exact hchecks
  · rw [hcancel]; exact hended
  · rw [hcancel]

end ReleaseValidation.AiAgent
