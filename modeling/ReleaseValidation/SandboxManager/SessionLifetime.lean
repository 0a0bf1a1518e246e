import ReleaseValidation.AiAgent.Sessions
import ReleaseValidation.SandboxManager.SlotRelease

/-! # How long a sandbox waits for its AI sessions

The task of a sandbox whose run belongs to an AI session polls the table of sessions,
which are created, work and end beside it. The poll counts the sessions of the run; a
session may name the sandbox and no run.
-/
namespace ReleaseValidation.SandboxManager.SessionLifetime
open Store Parties Runs Programs Program AiAgent SandboxTask

variable {φ : Type}

/-- Why `_wait_for_tests` ends. -/
inductive Why
  | cancelled
  /-- Every session of the run is over. -/
  | finished
  /-- No session has appeared within the grace time. -/
  | noSession
  | testsDone
  | timedOut
  | raised
  deriving DecidableEq, Repr

/-- The run is cancelled, or the wait has lasted as long as it may. -/
def Why.excused : Why → Bool
  | cancelled | timedOut => true
  | _ => false

/-- How one round of `_wait_for_tests` ends. -/
inductive Round
  | goesOn
  | leaves (why : Why)
  | raises (e : Err)
  | stops
  deriving DecidableEq, Repr

def Round.exit : Round → Exit Err (Option Unit)
  | goesOn => .returned none
  | leaves _ => .returned (some ())
  | raises e => .raised e
  | stops => .stopped

def Round.ofExit {α : Type} (exit : Exit Err α) (next : α → Round) : Round :=
  match exit with
  | .returned a => next a
  | .raised e => raises e
  | .stopped => stops

section Rounds
variable (env : Env)

/-- How an awaited read ends whose errors are not caught. -/
def readExit {α : Type} (site : Site) (answer : α) : Exit Err α :=
  match env.fault site with
  | none => .returned answer
  | some fault => fault.exit

/-- The round `k`, with the two answers of `_ai_session_counts`. -/
def pollRound (aiSessionRun : Bool) (k : ℕ) (sessions : Bool × Bool) : Round :=
  .ofExit (readExit env (.pollSleep k) ()) fun _ =>
  .ofExit (answered (env.fault (.pollCheck k)) (env.cancelled (.pollCheck k)) false) fun cancelled =>
    if cancelled then .leaves .cancelled
    else if aiSessionRun then
      .ofExit (answered (env.fault (.pollSessions k)) sessions (true, true)) fun (exists_, active) =>
        if exists_ && !active then .leaves .finished
        else if !exists_ && decide (env.sessionGrace < 5 * (k + 1)) then .leaves .noSession
        else .goesOn
    else
      .ofExit (readExit env (.pollDispatched k) (env.dispatched k)) fun dispatched =>
      .ofExit (readExit env (.pollCounts k) (env.counts k)) fun (inFlight, totalStarted) =>
        if decide (0 < dispatched) && decide (dispatched ≤ totalStarted) && inFlight == 0 then .leaves .testsDone
        else .goesOn

theorem await_pure_apply {max : ℕ} {α : Type} (site : Site) (answer : α) (w : World max) :
    (await (env.fault site) (pure answer) : Task max α) w = (readExit env site answer, w) := by
  unfold readExit
  cases env.fault site with
  | none => rfl
  | some fault =>
    cases fault with
    | before e => rfl
    | after e => rfl
    | stop => rfl

theorem bind_exit {max : ℕ} {α : Type} {m : Task max α} {next : α → Task max (Option Unit)} {round : α → Round}
    {exit : Exit Err α} {w : World max} (hm : m w = (exit, w)) (hnext : ∀ a, next a w = ((round a).exit, w)) :
    (m >>= next) w = ((Round.ofExit exit round).exit, w) := by
  cases exit with
  | returned a => rw [bind_returned hm]; exact hnext a
  | raised e => rw [bind_raised hm]; rfl
  | stopped => rw [bind_stopped hm]; rfl

/-- The rounds are those of the task. -/
theorem pollOnce_eq {max : ℕ} (aiSessionRun : Bool) (k : ℕ) (w : World max) :
    pollOnce env aiSessionRun k w = ((pollRound env aiSessionRun k (env.sessions k)).exit, w) := by
  refine bind_exit (await_pure_apply env _ () w) fun _ => ?_
  refine bind_exit (swallow_apply _ _ _ w) fun cancelled => ?_
  cases cancelled with
  | true => rfl
  | false =>
    cases aiSessionRun with
    | true =>
      refine bind_exit (swallow_apply _ _ _ w) fun sessions => ?_
      obtain ⟨exists_, active⟩ := sessions
      dsimp only
      split
      · rfl
      · split <;> rfl
    | false =>
      refine bind_exit (await_pure_apply env _ _ w) fun dispatched => ?_
      refine bind_exit (await_pure_apply env _ _ w) fun counts => ?_
      obtain ⟨inFlight, totalStarted⟩ := counts
      dsimp only
      split <;> rfl

end Rounds

/-- Where the task of the sandbox stands. -/
inductive Wait
  | provisioning
  /-- In `_wait_for_tests`, before round `k`. -/
  | waiting (aiSessionRun : Bool) (k : ℕ)
  | leaving (why : Why)
  /-- `provisioner.teardown` has returned, and the row still reads as ready. -/
  | tornDown (why : Why)
  | closed
  | stopped
  deriving DecidableEq, Repr

/-- The sandbox is to be torn down for this reason, or is being so. -/
def Wait.why : Wait → Option Why
  | leaving why | tornDown why => some why
  | _ => none

structure System (φ : Type) where
  agent : AiAgent.State φ
  wait : Wait

def start : System φ := ⟨AiAgent.initial, .provisioning⟩

inductive Act (φ : Type)
  /-- A request to `/sessions`, or a step of a session. -/
  | session (a : AiAgent.Act φ)
  /-- The sandbox is ready; `_is_ai_session_run` is asked, of a run of an AI session. -/
  | enter
  | poll
  | timeOut
  | teardown
  | closeRow
  deriving DecidableEq, Repr

section System
variable (env : Env) (runId sandboxId : Uuid)

/-- `_ai_session_counts`. -/
def aiSessionCounts (s : AiAgent.State φ) : Bool × Bool :=
  let ofRun := s.sessions.filter (·.row.runId = some runId)
  (ofRun ≠ [], ofRun.any (·.row.status.live))

def Round.next (aiSessionRun : Bool) (k : ℕ) : Round → Wait
  | .goesOn => .waiting aiSessionRun (k + 1)
  | .leaves why => .leaving why
  | .raises _ => .leaving .raised
  | .stops => .stopped

def step (s : System φ) : Act φ → Option (System φ)
  | .session a => (AiAgent.step s.agent a).map fun agent => { s with agent := agent }
  | .enter =>
    match s.wait with
    | .provisioning =>
      let wait := match answered (env.fault .isAiSession) true false with
        | .returned aiSessionRun => .waiting aiSessionRun 0
        | .raised _ => .leaving .raised
        | .stopped => .stopped
      some { s with wait := wait }
    | _ => none
  | .poll =>
    match s.wait with
    | .waiting aiSessionRun k =>
      if k < env.timeout / 5 then
        let round := pollRound env aiSessionRun k (aiSessionCounts runId s.agent)
        some { s with wait := round.next aiSessionRun k }
      else none
    | _ => none
  | .timeOut =>
    match s.wait with
    | .waiting _ k => if k < env.timeout / 5 then none else some { s with wait := .leaving .timedOut }
    | _ => none
  | .teardown =>
    match s.wait with
    | .leaving why => some { s with wait := .tornDown why }
    | _ => none
  | .closeRow =>
    match s.wait with
    | .tornDown _ => some { s with wait := .closed }
    | _ => none

/-- The session is bound to the sandbox, by its run or by itself. -/
def uses (x : Session φ) : Bool := x.row.runId = some runId || x.row.sandboxId = some sandboxId

/-- No session that uses the sandbox is starting or active. -/
def Unused (s : AiAgent.State φ) : Prop :=
  ∀ x ∈ s.sessions, uses runId sandboxId x = true → x.row.status.live = false

/-- A sandbox that is torn down and closed without excuse is not in use. -/
def Outlives (s : System φ) (a : Act φ) (_ : System φ) : Prop :=
  a = .teardown ∨ a = .closeRow → ∀ why, s.wait.why = some why → why.excused = false →
    Unused runId sandboxId s.agent

/-- The next write of the manager makes it a live session that uses the sandbox. -/
def restores (x : Session φ) : Bool :=
  match x.phase with
  | .activating sid => x.row.runId = some runId || sid = sandboxId
  | .saving .interim _ => uses runId sandboxId x
  | _ => false

/-- A step that brings a live session to the sandbox. -/
def Brings (s : AiAgent.State φ) : AiAgent.Act φ → Prop
  | .create b newRun => uses runId sandboxId (.created b newRun : Session φ) = true
  | .at i .advance => ∃ x ∈ s.sessions[i]?, restores runId sandboxId x = true
  | _ => False

/-- The flag of the run is read, no round raises, no live session names the sandbox alone when
a round finds no live session of the run, and none comes to the sandbox after that. -/
def Bound (s : System φ) : Act φ → System φ → Prop
  | .session a, _ => ∀ why ∈ s.wait.why, why.excused = false → ¬ Brings runId sandboxId s.agent a
  | .enter, _ => env.fault .isAiSession = none
  | .poll, t =>
    match t.wait with
    | .leaving why => why ≠ .raised ∧ (why.excused = false →
      ∀ x ∈ s.agent.sessions, x.row.sandboxId = some sandboxId → x.row.status.live = true → x.row.runId = some runId)
    | _ => True
  | _, _ => True

instance (s : AiAgent.State φ) : ∀ a : AiAgent.Act φ, Decidable (Brings runId sandboxId s a)
  | .create b newRun => inferInstanceAs (Decidable (uses runId sandboxId (.created b newRun : Session φ) = true))
  | .at i .advance => inferInstanceAs (Decidable (∃ x ∈ s.sessions[i]?, restores runId sandboxId x = true))
  | .at _ .cancel | .at _ .start | .at _ (.poll _) | .at _ .timeOut | .at _ .raise | .at _ (.report _)
  | .at _ .receive | .at _ .leave => inferInstanceAs (Decidable False)

instance (s : System φ) (a : Act φ) (t : System φ) : Decidable (Bound env runId sandboxId s a t) := by
  unfold Bound
  split
  · infer_instance
  · infer_instance
  · split <;> infer_instance
  · infer_instance

end System

section Steps
variable {env : Env} {runId sandboxId : Uuid}

/-- A session comes to use the sandbox, or to be live again, only when it is created or when its
manager writes that it is active. -/
theorem moves_unused {x y : Session φ} {findings gs : List φ} {e : Event φ} (h : x.Moves findings e y gs)
    (hno : e = .advance → restores runId sandboxId x = false)
    (hx : uses runId sandboxId x = true → x.row.status.live = false) (hy : uses runId sandboxId y = true) :
    y.row.status.live = false := by
  cases h with
  | cancel =>
    unfold Session.cancel at hy ⊢
    split
    · rfl
    next hlive => exact eq_false_of_ne_true hlive
  | activate sid hp =>
    have hres := hno rfl
    rw [restores, hp] at hres
    simp only [uses, Session.activate, Option.some_inj] at hy
    exact absurd (hres.symm.trans hy) nofun
  | write kind saved hp =>
    cases kind with
    | interim =>
      have hres := hno rfl
      rw [restores, hp] at hres
      exact absurd (hres.symm.trans hy) nofun
    | completed => rfl
    | bootstrapFailed => rfl
    | crashed => rfl
  | _ => exact hx hy

theorem step_unused {s t : AiAgent.State φ} {a : AiAgent.Act φ} (h : AiAgent.step s a = some t)
    (hs : Unused runId sandboxId s) (hno : ¬ Brings runId sandboxId s a) : Unused runId sandboxId t := by
  intro y hy huses
  obtain ⟨j, hj⟩ := List.mem_iff_getElem?.mp hy
  rcases step_cases h hj with ⟨b, newRun, rfl, rfl⟩ | ⟨e, x, rfl, hx, hstep⟩ | ⟨hx, -⟩
  · exact absurd huses hno
  · refine moves_unused (Session.step_moves hstep) ?_ (hs x (List.mem_of_getElem? hx)) huses
    rintro rfl
    refine eq_false_of_ne_true fun hres => hno ⟨x, hx, hres⟩
  · exact hs y (List.mem_of_getElem? hx) huses

theorem ofExit_eq_leaves {α : Type} {exit : Exit Err α} {next : α → Round} {why : Why}
    (h : Round.ofExit exit next = .leaves why) : ∃ a, exit = .returned a ∧ next a = .leaves why := by
  cases exit with
  | returned a => exact ⟨a, rfl, h⟩
  | raised e => cases h
  | stopped => cases h

theorem answered_eq_returned {α : Type} {fault : Option (Fault Err)} {answer fallback a : α}
    (h : answered fault answer fallback = .returned a) : a = answer ∨ a = fallback := by
  unfold answered at h
  split at h
  · cases h; exact .inl rfl
  · split at h <;> cases h
    exact .inr rfl
  · split at h <;> cases h
    exact .inr rfl
  · cases h

/-- Without an excuse, a round leaves only over an answer that shows no live session. -/
theorem pollRound_leaves {k : ℕ} {sessions : Bool × Bool} {why : Why}
    (h : pollRound env true k sessions = .leaves why) : why.excused = true ∨ sessions.1 = false ∨ sessions.2 = false := by
  obtain ⟨_, -, hcheck⟩ := ofExit_eq_leaves h
  obtain ⟨cancelled, -, hrest⟩ := ofExit_eq_leaves hcheck
  cases cancelled with
  | true => cases hrest; exact .inl rfl
  | false =>
    rw [if_neg nofun, if_pos rfl] at hrest
    obtain ⟨⟨exists_, active⟩, hanswer, hleaves⟩ := ofExit_eq_leaves hrest
    rcases answered_eq_returned hanswer with rfl | heq
    · cases exists_ with
      | false => exact .inr (.inl rfl)
      | true =>
        cases active with
        | false => exact .inr (.inr rfl)
        | true => cases hleaves
    · -- an error reads as a live session
      cases heq
      cases hleaves

theorem aiSessionCounts_unused {s : AiAgent.State φ}
    (h : (aiSessionCounts runId s).1 = false ∨ (aiSessionCounts runId s).2 = false) :
    ∀ x ∈ s.sessions, x.row.runId = some runId → x.row.status.live = false := by
  intro x hx hrun
  have hmem : x ∈ s.sessions.filter (·.row.runId = some runId) := by
    rw [List.mem_filter]
    exact ⟨hx, decide_eq_true hrun⟩
  rcases h with h | h
  · have hnil : s.sessions.filter (·.row.runId = some runId) = [] := by simpa [aiSessionCounts] using h
    rw [hnil] at hmem
    cases hmem
  · exact eq_false_of_ne_true fun hlive => absurd (List.any_eq_true.mpr ⟨x, hmem, hlive⟩) (by
      rw [show (s.sessions.filter (·.row.runId = some runId)).any (·.row.status.live) = false from h]
      exact Bool.false_ne_true)

/-- The task polls the sessions, and gives the sandbox up without an excuse only unused. -/
structure Watching (env : Env) (runId sandboxId : Uuid) (s : System φ) : Prop where
  flag : ∀ aiSessionRun k, s.wait = .waiting aiSessionRun k → aiSessionRun = true
  unused : ∀ why, s.wait.why = some why → why.excused = false → Unused runId sandboxId s.agent

theorem watching_waiting (agent : AiAgent.State φ) (k : ℕ) :
    Watching env runId sandboxId (⟨agent, .waiting true k⟩ : System φ) where
  flag _ _ h := by
    cases h
    rfl
  unused _ h := by cases h

/-- The wait is over. -/
theorem watching_left {agent : AiAgent.State φ} {wait : Wait} (hwait : ∀ aiSessionRun k, wait ≠ .waiting aiSessionRun k)
    (hunused : ∀ why, wait.why = some why → why.excused = false → Unused runId sandboxId agent) :
    Watching env runId sandboxId ⟨agent, wait⟩ where
  flag aiSessionRun k h := absurd h (hwait aiSessionRun k)
  unused := hunused

theorem step_watching {s t : System φ} {a : Act φ} (h : step env runId s a = some t)
    (hs : Watching env runId sandboxId s) (hb : Bound env runId sandboxId s a t) :
    Watching env runId sandboxId t := by
  cases a with
  | session a =>
    obtain ⟨agent, hagent, rfl⟩ := Option.map_eq_some_iff.mp h
    refine ⟨hs.flag, fun why hwhy hexcused => ?_⟩
    exact step_unused hagent (hs.unused why hwhy hexcused) (hb why hwhy hexcused)
  | enter =>
    simp only [step] at h
    split at h
    · cases h
      have hflag : env.fault .isAiSession = none := hb
      simp only [hflag, answered]
      exact watching_waiting _ _
    · cases h
  | poll =>
    simp only [step] at h
    split at h
    next aiSessionRun k hwait =>
      split at h
      · cases h
        cases hs.flag _ _ hwait
        cases hround : pollRound env true k (aiSessionCounts runId s.agent) with
        | goesOn => exact watching_waiting _ _
        | leaves why =>
          simp only [Bound, hround, Round.next] at hb
          apply watching_left (by simp [Round.next])
          rintro why' heq hexcused x hx huses
          cases heq
          have hno := aiSessionCounts_unused ((pollRound_leaves hround).resolve_left (by simp [hexcused]))
          rw [uses, Bool.or_eq_true, decide_eq_true_eq, decide_eq_true_eq] at huses
          rcases huses with hrun | hsandbox
          · exact hno x hx hrun
          · exact eq_false_of_ne_true fun hlive =>
              absurd ((hno x hx (hb.2 hexcused x hx hsandbox hlive)).symm.trans hlive) Bool.false_ne_true
        | raises e =>
          simp only [Bound, hround, Round.next] at hb
          exact absurd rfl hb.1
        | stops => exact watching_left (by simp [Round.next]) (by simp [Round.next, Wait.why])
      · cases h
    · cases h
  | timeOut =>
    simp only [step] at h
    split at h
    · split at h
      · cases h
      · cases h
        apply watching_left (by simp)
        rintro why heq hexcused
        cases heq
        cases hexcused
    · cases h
  | teardown =>
    simp only [step] at h
    split at h
    next why hwait =>
      cases h
      apply watching_left (by simp)
      rintro why' heq hexcused
      exact hs.unused why' (by rw [hwait]; exact heq) hexcused
    · cases h
  | closeRow =>
    simp only [step] at h
    split at h
    · cases h
      exact watching_left (by simp) (by simp [Wait.why])
    · cases h

end Steps

/-- In every run whose sessions are bound by their run, the sandbox outlives the sessions that use it. -/
theorem sandbox_outlives_sessions (env : Env) (runId sandboxId : Uuid) {as : List (Act φ)}
    (h : Always (step env runId) (Bound env runId sandboxId) start as) :
    Always (step env runId) (Outlives runId sandboxId) start as := by
  refine always_of_invariant (I := Watching env runId sandboxId) ?_ ⟨nofun, nofun⟩ h
  intro s a t hs ht hb
  exact ⟨fun _ => hs.unused, step_watching ht hs hb⟩

/-- No fault, no cancellation, the default times. -/
def calmEnv : Env := { oneTestEnv (fun _ => none) (fun _ => false) with aiSession := true }

/-- A session that is created with its sandbox works until its loop returns. -/
def bootstrappedSession : List (Act String) :=
  [.session (.create ⟨.autonomous, .runner, none, none, some "check the release", [], true⟩ "run-1"),
    .session (.at 0 .start), .enter, .poll, .session (.at 0 (.poll (.ready "sbx-1")))] ++
    List.replicate 9 (.session (.at 0 .advance))

theorem sandbox_outlives_bootstrapped :
    (exec (step calmEnv "run-1") start
        (bootstrappedSession ++ [.session (.at 0 .advance), .poll, .teardown, .closeRow])).map System.wait = some .closed ∧
      Always (step calmEnv "run-1") (Outlives "run-1" "sbx-1") start
        (bootstrappedSession ++ [.session (.at 0 .advance), .poll, .teardown, .closeRow]) :=
  ⟨by decide +kernel, sandbox_outlives_sessions calmEnv "run-1" "sbx-1" (by decide +kernel)⟩

/-- Before that session is over, another one is created on the sandbox alone. -/
def secondOnSandbox : List (Act String) :=
  bootstrappedSession ++
    [.session (.create ⟨.interactive, .runner, none, some "sbx-1", none, [], false⟩ ""),
      .session (.at 0 .advance), .poll]

theorem session_loses_sandbox :
    ¬ Always (step calmEnv "run-1") (Outlives "run-1" "sbx-1") start (secondOnSandbox ++ [.teardown]) := by
  intro h
  have hrun : (exec (step calmEnv "run-1") start secondOnSandbox).bind
      (fun s => (step calmEnv "run-1" s .teardown).bind fun _ => s.agent.sessions[1]?.map fun x =>
        (s.wait, uses "run-1" "sbx-1" x, x.row.status)) = some (.leaving .finished, true, .active) := by decide +kernel
  obtain ⟨s, hs, hrest⟩ := Option.bind_eq_some_iff.mp hrun
  obtain ⟨t, ht, hrest⟩ := Option.bind_eq_some_iff.mp hrest
  obtain ⟨x, hx, hstate⟩ := Option.map_eq_some_iff.mp hrest
  rw [Prod.mk.injEq, Prod.mk.injEq] at hstate
  obtain ⟨hwait, huses, hactive⟩ := hstate
  have hunused := h.at hs ht (.inl rfl) .finished (by rw [hwait]; rfl) rfl
  have hlive := hunused x (List.mem_of_getElem? hx) huses
  rw [hactive] at hlive
  cases hlive

end ReleaseValidation.SandboxManager.SessionLifetime
