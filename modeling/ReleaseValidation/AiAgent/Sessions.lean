import ReleaseValidation.Foundations.Parties
import ReleaseValidation.Foundations.Runs
import ReleaseValidation.Store.Records

/-! # The AI sessions of one agent process

`POST /sessions` inserts the row of a session and queues its request; the agent runs a
coroutine for each, several at a time. The coroutine first waits for a sandbox if one
is being provisioned for it, then prepares its loop, works, and writes its status and
the findings at the end. All sessions of the process share one list of findings.
A session is known by its position; `φ` is what one call of `report_finding` records.
-/
namespace ReleaseValidation.AiAgent
open Store Parties Runs

inductive SessionMode
  | autonomous
  | collaborative
  | interactive
  deriving DecidableEq, Repr

inductive ExecutionMode
  | runner
  | aiManual
  deriving DecidableEq, Repr

/-- `ai_session_status`. -/
inductive SessionStatus
  | starting
  | active
  | paused
  | completed
  | failed
  | aborted
  deriving DecidableEq, Repr

namespace SessionStatus

/-- `status IN ('starting', 'active')`. -/
def live : SessionStatus → Bool
  | starting | active => true
  | _ => false

def terminal : SessionStatus → Bool
  | completed | failed | aborted => true
  | _ => false

end SessionStatus

/-- The body of `POST /sessions`; `selectedTests` are the slugs after the resolution of phases. -/
structure SessionBody where
  mode : SessionMode
  executionMode : ExecutionMode
  runId : Option Uuid
  sandboxId : Option Uuid
  goal : Option String
  selectedTests : List String
  bootstrap : Bool
  deriving DecidableEq, Repr

namespace SessionBody

/-- A run is queued to provision a sandbox for the session. -/
def bootstraps (b : SessionBody) : Bool := b.bootstrap && b.sandboxId.isNone

/-- The checks of `create_session` that need no other table. -/
def accepted (b : SessionBody) : Bool :=
  let environment := b.sandboxId.isSome || b.bootstrap
  (b.mode ≠ .autonomous || environment && (b.executionMode ≠ .runner || b.goal.any (·.toList.any (!·.isWhitespace)))) &&
    (b.executionMode ≠ .aiManual || environment && b.selectedTests ≠ [])

end SessionBody

/-- What the manager takes from the message; the sandbox is set when the bootstrap succeeds. -/
structure SessionRequest where
  mode : SessionMode
  executionMode : ExecutionMode
  runId : Option Uuid
  sandboxId : Option Uuid
  selectedTests : List String
  bootstrap : Bool
  deriving DecidableEq, Repr

/-- A row of `ai.sessions`. -/
structure SessionRow (φ : Type) where
  runId : Option Uuid
  sandboxId : Option Uuid
  status : SessionStatus
  findings : List φ
  deriving DecidableEq, Repr

/-- What the coroutine does between the bootstrap and its first save. -/
inductive Stage
  | loadSandboxPorts
  | buildSystemPrompt
  | loadCredentials
  | makeAgentLoop
  | loadProvenance
  | manualPlanMessage
  deriving DecidableEq, Repr

/-- The calls of `_save_session`. -/
inductive SaveKind
  | interim
  | completed
  | bootstrapFailed
  | crashed
  deriving DecidableEq, Repr

def SaveKind.status : SaveKind → SessionStatus
  | interim => .active
  | completed => .completed
  | bootstrapFailed | crashed => .failed

/-- Where the coroutine of a session stands. -/
inductive Phase (φ : Type)
  /-- The request is in `ai.requests`. -/
  | queued
  | bootstrapping
  /-- The sandbox reads as ready; the row is to be switched to active. -/
  | activating (sandboxId : Uuid)
  | preparing (stage : Stage)
  /-- `_save_session` has read the findings and is writing the row. -/
  | saving (kind : SaveKind) (findings : List φ)
  /-- In `loop.run`. -/
  | running
  /-- The handler of `loop.run`. -/
  | crashed
  | finished
  /-- The first message of a collaborative session is being answered. -/
  | kickoff
  | listening
  | answering
  /-- The message loop has been left. -/
  | closing
  | ended (raised : Bool)
  deriving DecidableEq, Repr

structure Session (φ : Type) where
  request : SessionRequest
  row : SessionRow φ
  phase : Phase φ
  /-- What its own calls of `report_finding` have recorded. -/
  recorded : List φ
  /-- The findings of the summary that it returns and emits. -/
  summary : Option (List φ)
  deriving DecidableEq, Repr

structure State (φ : Type) where
  sessions : List (Session φ)
  /-- `_session_findings`. -/
  findings : List φ
  deriving DecidableEq, Repr

def initial {φ : Type} : State φ := ⟨[], []⟩

/-- What the row of the sandbox says that a poll of the bootstrap finds. -/
inductive SandboxSeen
  | waiting
  | ready (sandboxId : Uuid)
  | failed
  deriving DecidableEq, Repr

inductive Event (φ : Type)
  /-- `POST /sessions/{id}/cancel`. -/
  | cancel
  | start
  | poll (seen : SandboxSeen)
  /-- The time of the bootstrap is over, or a `TimeoutError` arises in the message loop. -/
  | timeOut
  /-- The current step succeeds. -/
  | advance
  /-- The current step raises. -/
  | raise
  | report (finding : φ)
  | receive
  /-- The queue yields `__done__` or `__timeout__`. -/
  | leave
  deriving DecidableEq, Repr

inductive Act (φ : Type)
  /-- `POST /sessions`; `newRun` is the run that is queued for a bootstrap. -/
  | create (body : SessionBody) (newRun : Uuid)
  | at (i : ℕ) (e : Event φ)
  deriving DecidableEq, Repr

variable {φ : Type}

namespace SessionRequest

def bootstraps (r : SessionRequest) : Bool := r.bootstrap && r.sandboxId.isNone

/-- The stage after `stage`; the first save follows the last one. -/
def nextStage (r : SessionRequest) : Stage → Option Stage
  | .loadSandboxPorts => some .buildSystemPrompt
  | .buildSystemPrompt => some .loadCredentials
  | .loadCredentials => some .makeAgentLoop
  | .makeAgentLoop => some .loadProvenance
  | .loadProvenance =>
    if r.mode = .autonomous ∧ r.executionMode = .aiManual ∧ r.selectedTests ≠ [] then some .manualPlanMessage
    else none
  | .manualPlanMessage => none

end SessionRequest

namespace Phase

/-- Where the session goes on when a save has been written. -/
def afterSave (mode : SessionMode) : SaveKind → Phase φ
  | .interim =>
    match mode with
    | .autonomous => running
    | .collaborative => kickoff
    | .interactive => listening
  | .completed => ended false
  | .bootstrapFailed | .crashed => ended true

def isEnded : Phase φ → Bool
  | ended _ => true
  | _ => false

/-- The model may call tools. -/
def calling : Phase φ → Bool
  | running | kickoff | answering => true
  | _ => false

end Phase

namespace Session

/-- The row and the request that `create_session` makes. -/
def created (b : SessionBody) (newRun : Uuid) : Session φ :=
  let runId := if b.bootstraps then some newRun else b.runId
  { request := ⟨b.mode, b.executionMode, runId, b.sandboxId, b.selectedTests, b.bootstraps⟩
    row := ⟨runId, b.sandboxId, if b.bootstraps then .starting else .active, []⟩
    phase := .queued
    recorded := []
    summary := none }

/-- `UPDATE … SET status = 'aborted' … AND status IN ('starting', 'active')`. -/
def cancel (x : Session φ) : Session φ :=
  if x.row.status.live then { x with row := { x.row with status := .aborted } } else x

def goTo (x : Session φ) (phase : Phase φ) : Session φ := { x with phase := phase }

/-- `_save_session` begins: it reads the findings. -/
def save (x : Session φ) (kind : SaveKind) (findings : List φ) : Session φ := x.goTo (.saving kind findings)

/-- The write of `_save_session`. -/
def write (x : Session φ) (kind : SaveKind) (findings : List φ) : Session φ :=
  { x with
    row := { x.row with status := kind.status, findings := findings }
    phase := .afterSave x.request.mode kind }

/-- The switch to active at the end of the bootstrap. -/
def activate (x : Session φ) (sandboxId : Uuid) : Session φ :=
  { x with
    request := { x.request with sandboxId := some sandboxId }
    row := { x.row with sandboxId := some sandboxId, status := .active }
    phase := .preparing .loadSandboxPorts }

def start (x : Session φ) : Option (Session φ) :=
  match x.phase with
  | .queued => some (x.goTo (if x.request.bootstraps then .bootstrapping else .preparing .loadSandboxPorts))
  | _ => none

/-- One round of `_bootstrap_environment`, which needs a run. -/
def poll (x : Session φ) (findings : List φ) (seen : SandboxSeen) : Option (Session φ) :=
  match x.phase with
  | .bootstrapping =>
    if x.request.runId = none then some (x.save .bootstrapFailed findings)
    else if x.row.status = .aborted then some (x.goTo (.ended true))
    else
      match seen with
      | .waiting => some x
      | .ready sandboxId => some (x.goTo (.activating sandboxId))
      | .failed => some (x.save .bootstrapFailed findings)
  | _ => none

def timeOut (x : Session φ) (findings : List φ) : Option (Session φ) :=
  match x.phase with
  | .bootstrapping => some (x.save .bootstrapFailed findings)
  | .listening | .answering => some (x.goTo .closing)
  | _ => none

def advance (x : Session φ) (findings : List φ) : Option (Session φ) :=
  match x.phase with
  | .activating sandboxId => some (x.activate sandboxId)
  | .preparing stage =>
    match x.request.nextStage stage with
    | some next => some (x.goTo (.preparing next))
    | none => some (x.save .interim findings)
  | .saving kind saved => some (x.write kind saved)
  | .running => some { x.goTo .finished with summary := some findings }
  | .crashed => some (x.save .crashed findings)
  | .finished => some (x.save .completed findings)
  | .kickoff | .answering => some (x.goTo .listening)
  | .closing => some { x.save .completed findings with summary := some findings }
  | _ => none

/-- The bootstrap and `loop.run` have handlers; `_load_provenance` lets nothing out. -/
def raise (x : Session φ) (findings : List φ) : Option (Session φ) :=
  match x.phase with
  | .bootstrapping | .activating _ => some (x.save .bootstrapFailed findings)
  | .preparing stage => if stage = .loadProvenance then none else some (x.goTo (.ended true))
  | .running => some (x.goTo .crashed)
  | .crashed | .finished | .kickoff | .answering | .closing => some (x.goTo (.ended true))
  | _ => none

/-- A message for a session that is listening, or the end of its messages. -/
def hear (x : Session φ) (next : Phase φ) : Option (Session φ) :=
  match x.phase with
  | .listening => some (x.goTo next)
  | _ => none

/-- What an event makes of the session, and of the list of findings. -/
def step (x : Session φ) (findings : List φ) : Event φ → Option (Session φ × List φ)
  | .cancel => some (x.cancel, findings)
  | .start => x.start.map (·, [])
  | .poll seen => (x.poll findings seen).map (·, findings)
  | .timeOut => (x.timeOut findings).map (·, findings)
  | .advance => (x.advance findings).map (·, findings)
  | .raise => (x.raise findings).map (·, findings)
  | .report finding =>
    if x.phase.calling then some ({ x with recorded := x.recorded ++ [finding] }, findings ++ [finding]) else none
  | .receive => (x.hear .answering).map (·, findings)
  | .leave => (x.hear .closing).map (·, findings)

end Session

def step (s : State φ) : Act φ → Option (State φ)
  | .create b newRun =>
    if b.accepted then some { s with sessions := s.sessions ++ [.created b newRun] } else none
  | .at i e =>
    match s.sessions[i]? with
    | some x => (x.step s.findings e).map fun r => ⟨s.sessions.set i r.1, r.2⟩
    | none => none

/-- Events of the session at position `i`, one after the other. -/
def onSession (i : ℕ) (es : List (Event φ)) : List (Act φ) := es.map (.at i)

/-! ### What one step does -/

namespace Session
variable {x y : Session φ} {findings gs : List φ} {e : Event φ}

/-- An exception at the current step ends the coroutine. -/
def exposed (x : Session φ) : Bool :=
  match x.phase with
  | .preparing stage => stage ≠ .loadProvenance
  | .crashed | .finished | .kickoff | .answering | .closing => true
  | _ => false

/-- Everything that an event can make of the session and of the list of findings. -/
inductive Moves (x : Session φ) (findings : List φ) : Event φ → Session φ → List φ → Prop
  | cancel : Moves x findings .cancel x.cancel findings
  | start (hp : x.phase = .queued) :
    Moves x findings .start
      (x.goTo (if x.request.bootstraps then .bootstrapping else .preparing .loadSandboxPorts)) []
  | pollNoRun (seen : SandboxSeen) (hp : x.phase = .bootstrapping) (hrun : x.request.runId = none) :
    Moves x findings (.poll seen) (x.save .bootstrapFailed findings) findings
  | pollAborted (seen : SandboxSeen) (hp : x.phase = .bootstrapping) (hs : x.row.status = .aborted) :
    Moves x findings (.poll seen) (x.goTo (.ended true)) findings
  | pollWaiting (hp : x.phase = .bootstrapping) (hs : x.row.status ≠ .aborted) :
    Moves x findings (.poll .waiting) x findings
  | pollReady (sandboxId : Uuid) (hp : x.phase = .bootstrapping) (hs : x.row.status ≠ .aborted) :
    Moves x findings (.poll (.ready sandboxId)) (x.goTo (.activating sandboxId)) findings
  | pollFailed (hp : x.phase = .bootstrapping) (hs : x.row.status ≠ .aborted) :
    Moves x findings (.poll .failed) (x.save .bootstrapFailed findings) findings
  | bootstrapTimesOut (hp : x.phase = .bootstrapping) :
    Moves x findings .timeOut (x.save .bootstrapFailed findings) findings
  | messagesTimeOut (hp : x.phase = .listening ∨ x.phase = .answering) :
    Moves x findings .timeOut (x.goTo .closing) findings
  | activate (sandboxId : Uuid) (hp : x.phase = .activating sandboxId) :
    Moves x findings .advance (x.activate sandboxId) findings
  | prepare (stage next : Stage) (hp : x.phase = .preparing stage) (hnext : x.request.nextStage stage = some next) :
    Moves x findings .advance (x.goTo (.preparing next)) findings
  | prepared (stage : Stage) (hp : x.phase = .preparing stage) (hnext : x.request.nextStage stage = none) :
    Moves x findings .advance (x.save .interim findings) findings
  | write (kind : SaveKind) (saved : List φ) (hp : x.phase = .saving kind saved) :
    Moves x findings .advance (x.write kind saved) findings
  | loopReturns (hp : x.phase = .running) :
    Moves x findings .advance { x.goTo .finished with summary := some findings } findings
  | saveCrashed (hp : x.phase = .crashed) : Moves x findings .advance (x.save .crashed findings) findings
  | saveFinished (hp : x.phase = .finished) : Moves x findings .advance (x.save .completed findings) findings
  | answered (hp : x.phase = .kickoff ∨ x.phase = .answering) : Moves x findings .advance (x.goTo .listening) findings
  | saveClosing (hp : x.phase = .closing) :
    Moves x findings .advance { x.save .completed findings with summary := some findings } findings
  | bootstrapRaises (hp : x.phase = .bootstrapping ∨ ∃ sandboxId, x.phase = .activating sandboxId) :
    Moves x findings .raise (x.save .bootstrapFailed findings) findings
  | loopRaises (hp : x.phase = .running) : Moves x findings .raise (x.goTo .crashed) findings
  | escapes (hp : x.exposed = true) : Moves x findings .raise (x.goTo (.ended true)) findings
  | report (finding : φ) (hp : x.phase.calling = true) :
    Moves x findings (.report finding) { x with recorded := x.recorded ++ [finding] } (findings ++ [finding])
  | receive (hp : x.phase = .listening) : Moves x findings .receive (x.goTo .answering) findings
  | leave (hp : x.phase = .listening) : Moves x findings .leave (x.goTo .closing) findings

theorem poll_moves {seen : SandboxSeen} (h : x.poll findings seen = some y) : Moves x findings (.poll seen) y findings := by
  unfold poll at h
  split at h
  next hp =>
    split at h
    next hrun => cases h; exact .pollNoRun seen hp hrun
    · split at h
      next hs => cases h; exact .pollAborted seen hp hs
      next hs =>
        cases seen with
        | waiting => cases h; exact .pollWaiting hp hs
        | ready sandboxId => cases h; exact .pollReady sandboxId hp hs
        | failed => cases h; exact .pollFailed hp hs
  · cases h

theorem timeOut_moves (h : x.timeOut findings = some y) : Moves x findings .timeOut y findings := by
  unfold timeOut at h
  split at h
  next hp => cases h; exact .bootstrapTimesOut hp
  next hp => cases h; exact .messagesTimeOut (.inl hp)
  next hp => cases h; exact .messagesTimeOut (.inr hp)
  · cases h

theorem advance_moves (h : x.advance findings = some y) : Moves x findings .advance y findings := by
  unfold advance at h
  split at h
  next sandboxId hp => cases h; exact .activate sandboxId hp
  next stage hp =>
    split at h
    next next hnext => cases h; exact .prepare stage next hp hnext
    next hnext => cases h; exact .prepared stage hp hnext
  next kind saved hp => cases h; exact .write kind saved hp
  next hp => cases h; exact .loopReturns hp
  next hp => cases h; exact .saveCrashed hp
  next hp => cases h; exact .saveFinished hp
  next hp => cases h; exact .answered (.inl hp)
  next hp => cases h; exact .answered (.inr hp)
  next hp => cases h; exact .saveClosing hp
  · cases h

theorem raise_moves (h : x.raise findings = some y) : Moves x findings .raise y findings := by
  unfold raise at h
  split at h
  next hp => cases h; exact .bootstrapRaises (.inl hp)
  next sandboxId hp => cases h; exact .bootstrapRaises (.inr ⟨sandboxId, hp⟩)
  next stage hp =>
    split at h
    · cases h
    next hne => cases h; exact .escapes (by rw [exposed, hp]; exact decide_eq_true hne)
  next hp => cases h; exact .loopRaises hp
  next hp => cases h; exact .escapes (by rw [exposed, hp])
  next hp => cases h; exact .escapes (by rw [exposed, hp])
  next hp => cases h; exact .escapes (by rw [exposed, hp])
  next hp => cases h; exact .escapes (by rw [exposed, hp])
  next hp => cases h; exact .escapes (by rw [exposed, hp])
  · cases h

theorem step_moves (h : x.step findings e = some (y, gs)) : Moves x findings e y gs := by
  have hmap : ∀ {o : Option (Session φ)} {fs : List φ}, o.map (·, fs) = some (y, gs) → o = some y ∧ fs = gs := by
    intro o fs ho
    obtain ⟨z, hz, heq⟩ := Option.map_eq_some_iff.mp ho
    obtain ⟨rfl, rfl⟩ := Prod.mk.inj heq
    exact ⟨hz, rfl⟩
  cases e with
  | cancel => cases h; exact .cancel
  | start =>
    obtain ⟨hy, rfl⟩ := hmap h
    unfold Session.start at hy
    split at hy
    next hp => cases hy; exact .start hp
    · cases hy
  | poll seen => obtain ⟨hy, rfl⟩ := hmap h; exact poll_moves hy
  | timeOut => obtain ⟨hy, rfl⟩ := hmap h; exact timeOut_moves hy
  | advance => obtain ⟨hy, rfl⟩ := hmap h; exact advance_moves hy
  | raise => obtain ⟨hy, rfl⟩ := hmap h; exact raise_moves hy
  | report f =>
    simp only [step] at h
    split at h
    next hp => cases h; exact .report f hp
    · cases h
  | receive =>
    obtain ⟨hy, rfl⟩ := hmap h
    unfold hear at hy
    split at hy
    next hp => cases hy; exact .receive hp
    · cases hy
  | leave =>
    obtain ⟨hy, rfl⟩ := hmap h
    unfold hear at hy
    split at hy
    next hp => cases hy; exact .leave hp
    · cases hy

end Session

theorem step_at_eq_some {s t : State φ} {i : ℕ} {e : Event φ} :
    step s (.at i e) = some t ↔
      ∃ x y findings, s.sessions[i]? = some x ∧ x.step s.findings e = some (y, findings) ∧
        t = ⟨s.sessions.set i y, findings⟩ := by
  simp only [step]
  constructor
  · intro h
    split at h
    next x hx =>
      obtain ⟨⟨y, findings⟩, hy, rfl⟩ := Option.map_eq_some_iff.mp h
      exact ⟨x, y, findings, hx, hy, rfl⟩
    · cases h
  · rintro ⟨x, y, findings, hx, hy, rfl⟩
    simp only [hx, hy, Option.map_some]

theorem step_create_eq_some {s t : State φ} {b : SessionBody} {newRun : Uuid} :
    step s (.create b newRun) = some t ↔
      b.accepted = true ∧ t = { s with sessions := s.sessions ++ [.created b newRun] } := by
  simp only [step]
  split
  next h => simp [h, eq_comm]
  next h => simp [h]

/-- A session after a step is new, or has taken the event of the step, or is as it was. -/
theorem step_cases {s t : State φ} {a : Act φ} (h : step s a = some t) {j : ℕ} {y : Session φ}
    (hj : t.sessions[j]? = some y) :
    (∃ b newRun, a = .create b newRun ∧ y = .created b newRun) ∨
      (∃ e x, a = .at j e ∧ s.sessions[j]? = some x ∧ x.step s.findings e = some (y, t.findings)) ∨
      (s.sessions[j]? = some y ∧ ∀ e, a ≠ .at j e) := by
  cases a with
  | create b newRun =>
    obtain ⟨-, rfl⟩ := step_create_eq_some.mp h
    obtain ⟨-, rfl⟩ | hj := getElem?_append_cases hj
    · exact .inl ⟨b, newRun, rfl, rfl⟩
    · exact .inr (.inr ⟨hj, nofun⟩)
  | «at» i e =>
    obtain ⟨x, z, findings, hx, hz, rfl⟩ := step_at_eq_some.mp h
    obtain ⟨rfl, rfl⟩ | ⟨hne, hj⟩ := getElem?_set_cases hj
    · exact .inr (.inl ⟨e, x, rfl, hx, hz⟩)
    · exact .inr (.inr ⟨hj, fun e' he => hne (by cases he; rfl)⟩)

/-- No step takes a session away. -/
theorem step_session {s t : State φ} {a : Act φ} (h : step s a = some t) {j : ℕ} {x : Session φ}
    (hj : s.sessions[j]? = some x) :
    (∃ e y, a = .at j e ∧ x.step s.findings e = some (y, t.findings) ∧ t.sessions[j]? = some y) ∨
      (t.sessions[j]? = some x ∧ ∀ e, a ≠ .at j e) := by
  cases a with
  | create b newRun =>
    obtain ⟨-, rfl⟩ := step_create_eq_some.mp h
    exact .inr ⟨getElem?_append_of_some hj, nofun⟩
  | «at» i e =>
    obtain ⟨x', y, findings, hx, hy, rfl⟩ := step_at_eq_some.mp h
    by_cases hij : i = j
    · subst hij
      cases hj.symm.trans hx
      exact .inl ⟨e, y, rfl, hy, getElem?_set_of_some hx⟩
    · refine .inr ⟨(List.getElem?_set_ne hij).trans hj, ?_⟩
      intro e' he
      cases he
      exact hij rfl

end ReleaseValidation.AiAgent
