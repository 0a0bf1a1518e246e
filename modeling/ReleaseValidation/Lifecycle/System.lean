import ReleaseValidation.Foundations.Runs
import ReleaseValidation.Orchestrator.RunClosure
import ReleaseValidation.Orchestrator.StatusWriters

/-! # The life of one run across three services

The sandbox manager provisions a sandbox and publishes events; the orchestrator's
event handler updates the run and publishes one test command per selected
definition; the test runner answers each command with a result row and a result
message; the orchestrator's results handler counts the rows and closes the run.
Every database statement and every publish is a step of its own, and the steps of
all parties interleave freely. Further commands may be published for the same run
by an agent, and the run may be cancelled at any time.
-/
namespace ReleaseValidation.Lifecycle
open Store Orchestrator

structure Config where
  /-- Number of definitions selected by `_dispatch_tests`. -/
  selected : ℕ
  thresholds : Thresholds
  /-- `timeout` of `_wait_for_tests`, in seconds. -/
  timeout : ℕ
  /-- `AI_SESSION_START_GRACE_S`. -/
  sessionGrace : ℕ
  deriving DecidableEq, Repr

def Config.default (selected : ℕ) : Config := ⟨selected, .default, 7200, 900⟩

inductive Origin
  | dispatched
  | triggered
  deriving DecidableEq, Repr

/-- Statuses with which a test ends. -/
abbrev Outcome := { t : TestStatus // t.terminal = true }

def Outcome.passed : Outcome := ⟨.passed, rfl⟩

/-- How far one command has come, from the test runner's queue through its result row
to the end of `TestResultConsumer._handle` for its result message. -/
inductive Stage
  | queued
  | admitted
  | skipping
  | dropped
  | running
  | settled (outcome : Outcome)
  | answered (outcome : Outcome)
  | counted (outcome : Outcome)
  | rated (outcome : Outcome) (rate : ℚ)
  | handled (outcome : Outcome)
  deriving DecidableEq

namespace Stage

/-- The status of the command's result row, once there is one. -/
def row : Stage → Option TestStatus
  | queued | admitted | skipping | dropped => none
  | running => some .running
  | settled o | answered o | counted o | rated o _ | handled o => some o.val

/-- The result message has been handled to its end. -/
def isHandled : Stage → Bool
  | handled _ => true
  | _ => false

/-- The results handler has decided to close the run and has not written yet. -/
def closing : Stage → Bool
  | counted _ | rated _ _ => true
  | _ => false

/-- The result message is published and its handling has not ended. -/
def unhandled : Stage → Bool
  | answered _ | counted _ | rated _ _ => true
  | _ => false

end Stage

structure Command where
  origin : Origin
  stage : Stage
  deriving DecidableEq

inductive CommandAct
  | consume (cached : Bool)
  | insertSkipped
  | insertRunning
  | settle (outcome : Outcome)
  | publishResult
  | readCounts
  | readStats
  | close
  deriving DecidableEq

/-- One statement of the test runner or of the results handler, on the run and the
statuses of its result rows. -/
def Stage.step (th : Thresholds) (run : RunRow) (rows : List TestStatus) (x : Stage) :
    CommandAct → Option (Stage × RunRow)
  | .consume cached =>
    match x with
    | .queued =>
      some (if run.status = .cancelled then .skipping else if cached then .admitted else .dropped, run)
    | _ => none
  | .insertSkipped =>
    match x with
    | .skipping => some (.settled ⟨.skipped, rfl⟩, run)
    | _ => none
  | .insertRunning =>
    match x with
    | .admitted => some (.running, run)
    | _ => none
  | .settle o =>
    match x with
    | .running => some (.settled o, run)
    | _ => none
  | .publishResult =>
    match x with
    | .settled o => some (.answered o, run)
    | _ => none
  | .readCounts =>
    match x with
    | .answered o =>
      some (if (counts run.dispatchedCount rows).unfinished then .handled o else .counted o, run)
    | _ => none
  | .readStats =>
    match x with
    | .counted o => some (.rated o (stats rows).rate, run)
    | _ => none
  | .close =>
    match x with
    | .rated o rate => some (.handled o, closeRun th rate run)
    | _ => none

inductive Event
  | provisioning
  | ready
  | failed
  | closed
  deriving DecidableEq, Repr

/-- Where `SandboxQueueConsumer._handle` stands. -/
inductive Sandbox
  | requested
  | acquired
  | starting
  | provisioning
  | failing
  | provisioned
  | marking
  | waiting (polls : ℕ)
  | polled (polls : ℕ)
  | counting (polls dispatched : ℕ)
  | raising (provisioned : Bool)
  | tearingDown
  | ended
  deriving DecidableEq, Repr

namespace Sandbox

/-- `sandbox_provisioned`. -/
def isProvisioned : Sandbox → Bool
  | provisioned | marking | waiting _ | polled _ | counting _ _ => true
  | raising p => p
  | requested | acquired | starting | provisioning | failing | tearingDown | ended => false

/-- Inside the outer `try`, and not inside the handler for a failed provisioning. -/
def inBody : Sandbox → Bool
  | acquired | starting | failing | provisioned | marking | waiting _ | polled _ | counting _ _ => true
  | requested | provisioning | raising _ | tearingDown | ended => false

/-- The task still runs and is not in its `finally` block. -/
def interruptible : Sandbox → Bool
  | tearingDown | ended => false
  | _ => true

/-- The ready event may still be published. -/
def beforeReady : Sandbox → Bool
  | requested | acquired | starting | provisioning | provisioned | marking => true
  | failing | waiting _ | polled _ | counting _ _ | raising _ | tearingDown | ended => false

/-- What the `finally` block does next. -/
def leave (provisioned : Bool) : Sandbox := if provisioned then tearingDown else ended

end Sandbox

inductive SandboxAct
  | acquire (ok : Bool)
  | preCheck
  | publishProvisioning
  | provisionFails
  | provisionReturns
  | postCheck
  | publishReady
  | pollCancelled
  | pollDispatched
  | pollCounts
  | pollSessions (some_ live : Bool)
  | expire
  | unexpected
  | publishFailed
  | interrupted
  | teardownRaises
  | publishClosed
  deriving DecidableEq, Repr

/-- One awaited operation of the sandbox manager, with the events it publishes. -/
def Sandbox.step (cfg : Config) (run : RunRow) (rows : List TestStatus) (x : Sandbox) :
    SandboxAct → Option (Sandbox × List Event)
  | .acquire ok =>
    match x with
    | .requested => some (if ok then .acquired else .ended, [])
    | _ => none
  | .preCheck =>
    match x with
    | .acquired => some (if run.status = .cancelled then .ended else .starting, [])
    | _ => none
  | .publishProvisioning =>
    match x with
    | .starting => some (.provisioning, [.provisioning])
    | _ => none
  | .provisionFails =>
    match x with
    | .provisioning => some (.failing, [])
    | _ => none
  | .provisionReturns =>
    match x with
    | .provisioning => some (.provisioned, [])
    | _ => none
  | .postCheck =>
    match x with
    | .provisioned => some (if run.status = .cancelled then .tearingDown else .marking, [])
    | _ => none
  | .publishReady =>
    match x with
    | .marking => some (.waiting 0, [.ready])
    | _ => none
  | .pollCancelled =>
    match x with
    | .waiting k =>
      if k < cfg.timeout / 5 then
        some (if run.status = .cancelled then .tearingDown else .polled k, [])
      else none
    | _ => none
  | .pollSessions some_ live =>
    match x with
    | .polled k =>
      if run.aiSession then
        some (if some_ && !live then .tearingDown
          else if !some_ && decide (cfg.sessionGrace < 5 * (k + 1)) then .tearingDown
          else .waiting (k + 1), [])
      else none
    | _ => none
  | .pollDispatched =>
    match x with
    | .polled k => if run.aiSession then none else some (.counting k (run.dispatchedCount.getD 0), [])
    | _ => none
  | .pollCounts =>
    match x with
    | .counting k d => some (if (poll d rows).done then .tearingDown else .waiting (k + 1), [])
    | _ => none
  | .expire =>
    match x with
    | .waiting k => if cfg.timeout / 5 ≤ k then some (.tearingDown, []) else none
    | _ => none
  | .unexpected => if x.inBody then some (.raising x.isProvisioned, []) else none
  | .publishFailed =>
    match x with
    | .failing => some (.ended, [.failed])
    | .raising p => some (.leave p, [.failed])
    | _ => none
  | .interrupted => if x.interruptible then some (.leave x.isProvisioned, []) else none
  | .teardownRaises =>
    match x with
    | .tearingDown => some (.ended, [])
    | _ => none
  | .publishClosed =>
    match x with
    | .tearingDown => some (.ended, [.closed])
    | _ => none

/-- Where `SandboxEventConsumer._handle` stands. -/
inductive Handler
  | idle
  | readyChecked
  | dispatching (published : ℕ)
  | failedChecked
  deriving DecidableEq, Repr

/-- The handler after `_is_run_cancelled` answered no. -/
def Handler.receive : Event → Handler
  | .ready => readyChecked
  | .failed => failedChecked
  | .provisioning | .closed => idle

inductive HandlerAct
  | takeEvent
  | readyUpdate
  | publishCommand
  | writeCount
  | failedUpdate
  deriving DecidableEq, Repr

structure State where
  run : RunRow
  commands : List Command
  events : List Event
  handler : Handler
  /-- Cancel requests accepted and not yet committed. -/
  cancels : ℕ
  sandbox : Sandbox
  deriving DecidableEq

namespace State

def initial (aiSession : Bool) : State := ⟨.queued aiSession, [], [], .idle, 0, .requested⟩

/-- The status column of the run's rows in `tests.results`. -/
def rows (s : State) : List TestStatus := s.commands.filterMap (·.stage.row)

end State

/-- How many commands `_dispatch_tests` publishes: none for an AI session. -/
def Config.toDispatch (cfg : Config) (run : RunRow) : ℕ := if run.aiSession then 0 else cfg.selected

def handlerStep (cfg : Config) (s : State) : HandlerAct → Option State
  | .takeEvent =>
    match s.handler, s.events with
    | .idle, e :: es =>
      some { s with
        events := es
        handler := if s.run.status = .cancelled then .idle else .receive e }
    | _, _ => none
  | .readyUpdate =>
    match s.handler with
    | .readyChecked => some { s with run := { s.run with status := .running }, handler := .dispatching 0 }
    | _ => none
  | .publishCommand =>
    match s.handler with
    | .dispatching k =>
      if k < cfg.toDispatch s.run then
        some { s with
          commands := s.commands ++ [⟨.dispatched, .queued⟩]
          handler := .dispatching (k + 1) }
      else none
    | _ => none
  | .writeCount =>
    match s.handler with
    | .dispatching k =>
      if k < cfg.toDispatch s.run then none
      else some { s with
        run := { s.run with dispatchedCount := some (cfg.toDispatch s.run) }
        handler := .idle }
    | _ => none
  | .failedUpdate =>
    match s.handler with
    | .failedChecked => some { s with run := { s.run with status := .failed }, handler := .idle }
    | _ => none

/-- `trigger` is the publish at the end of the agent's `trigger_test`; its look-ups,
which may refuse, are left out. -/
inductive Act
  | sandbox (act : SandboxAct)
  | handler (act : HandlerAct)
  | command (i : ℕ) (act : CommandAct)
  | trigger
  | requestCancel
  | commitCancel
  deriving DecidableEq

def step (cfg : Config) (s : State) : Act → Option State
  | .sandbox a =>
    (s.sandbox.step cfg s.run s.rows a).map fun r => { s with sandbox := r.1, events := s.events ++ r.2 }
  | .handler a => handlerStep cfg s a
  | .command i a =>
    s.commands[i]?.bind fun c =>
      (c.stage.step cfg.thresholds s.run s.rows a).map fun r =>
        { s with commands := s.commands.set i { c with stage := r.1 }, run := r.2 }
  | .trigger => some { s with commands := s.commands ++ [⟨.triggered, .queued⟩] }
  | .requestCancel =>
    some (if StatusWriters.cancelRefused s.run.status then s else { s with cancels := s.cancels + 1 })
  | .commitCancel =>
    if s.cancels = 0 then none
    else some { s with run := { s.run with status := .cancelled }, cancels := s.cancels - 1 }

end ReleaseValidation.Lifecycle
