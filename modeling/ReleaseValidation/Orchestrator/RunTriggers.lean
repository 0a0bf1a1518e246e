import ReleaseValidation.Store.Records
import ReleaseValidation.Foundations.Parties
import ReleaseValidation.Foundations.Runs
import ReleaseValidation.Catalog.Schema

/-! # Release events and manual triggers

The releases consumer and the trigger endpoint commit a queued run in the database and then
publish its sandbox request to the broker. Each delivered event and each call is a handler
here that moves from one awaited operation to the next; every operation may fail, which ends
the handler. The consumer takes one event after the other, the endpoint serves its calls
next to it. The run of a handler is known by the handler's position.
-/
namespace ReleaseValidation.Orchestrator.RunTriggers
open Store Catalog Parties

inductive TriggeredBy
  | githubRelease | user | scheduled
  deriving DecidableEq, Repr

/-- The values of the enumeration `triggered_by_type`. -/
def TriggeredBy.parse (s : String) : Option TriggeredBy :=
  if s = "github_release" then some .githubRelease
  else if s = "user" then some .user
  else if s = "scheduled" then some .scheduled
  else none

structure Run where
  id : ℕ
  releaseTag : String
  imageTag : String
  suiteIds : List Uuid
  status : RunStatus
  priority : ℤ
  triggeredBy : TriggeredBy
  triggeredByUser : Option String
  appId : Option Uuid
  deriving DecidableEq, Repr

/-- `release_tag = :tag AND triggered_by = 'github_release'`. -/
def Run.ofRelease (r : Run) (tag : String) : Bool := r.releaseTag == tag && r.triggeredBy == .githubRelease

/-- The message of `publish_sandbox_request`. -/
structure SandboxRequest where
  runId : ℕ
  releaseTag : String
  imageTag : String
  sdkVersion : Option String
  cliVersion : Option String
  devnetVersion : Option String
  contractsVersion : Option String
  nodeMajorVersion : Option ℤ
  priority : ℤ
  requestedBy : Option String
  appId : Option Uuid
  appName : Option String
  appGithubUrl : Option String
  deriving DecidableEq, Repr

structure ReleaseEvent where
  tagName : Option String
  deriving DecidableEq, Repr

/-- `msg.get("tag_name", "unknown")`. -/
def ReleaseEvent.tag (e : ReleaseEvent) : String := e.tagName.getD "unknown"

structure TriggerRunRequest where
  releaseTag : String
  imageTag : String
  suiteIds : Option (List String)
  priority : ℤ
  triggeredBy : String
  triggeredByUser : Option String
  appId : Option String
  sdkVersion : Option String
  cliVersion : Option String
  nodeMajorVersion : Option ℤ
  deriving DecidableEq, Repr

structure Application where
  name : String
  githubUrl : String
  isActive : Bool
  deriving DecidableEq, Repr

/-- The application that a run targets: its id, its name and its repository. -/
structure Target where
  appId : Uuid
  name : String
  githubUrl : String
  deriving DecidableEq, Repr

/-- The tables that a handler reads at the time of an operation. -/
structure Tables where
  catalog : Db
  applications : Uuid → Option Application

/-- `a or b` for numbers. -/
def orNumber (a b : Option ℤ) : Option ℤ := (a.filter (· ≠ 0)).or b

/-- `a or b` for texts. -/
def orText (a b : Option String) : Option String := (a.filter (· ≠ "")).or b

/-- The next operation of `_handle`; the row that the catalog lookup has found is kept for the insert. -/
inductive EventStage
  | check
  | lookup
  | insert (found : Option Toolchain)
  | publish (request : SandboxRequest)
  | ended
  deriving DecidableEq, Repr

/-- The next operation of `trigger_run`, with the application it has found. -/
inductive TriggerStage
  | application
  | insert (target : Option Target)
  | refresh (target : Option Target)
  | lookup (target : Option Target)
  | publish (request : SandboxRequest)
  | ended
  deriving DecidableEq, Repr

inductive Handler
  | event (e : ReleaseEvent) (stage : EventStage)
  | trigger (body : TriggerRunRequest) (stage : TriggerStage)
  deriving DecidableEq, Repr

inductive Phase
  | beforeCommit | committed | ended
  deriving DecidableEq, Repr

def EventStage.phase : EventStage → Phase
  | .check | .lookup | .insert _ => .beforeCommit
  | .publish _ => .committed
  | .ended => .ended

def TriggerStage.phase : TriggerStage → Phase
  | .application | .insert _ => .beforeCommit
  | .refresh _ | .lookup _ | .publish _ => .committed
  | .ended => .ended

def Handler.phase : Handler → Phase
  | .event _ stage => stage.phase
  | .trigger _ stage => stage.phase

/-- A release event that is being handled. -/
def Handler.handlesEvent : Handler → Bool
  | .event _ stage => stage != .ended
  | .trigger _ _ => false

def Handler.isTrigger : Handler → Bool
  | .event _ _ => false
  | .trigger _ _ => true

/-- The handler after its error, which the consumer logs and the endpoint answers with. -/
def Handler.stop : Handler → Handler
  | .event e _ => .event e .ended
  | .trigger body _ => .trigger body .ended

section Events
variable (ch : Characters)

/-- The image and the versions of the catalog row, or those derived from the tag without a row. -/
def ReleaseEvent.imageTag (e : ReleaseEvent) (found : Option Toolchain) : String :=
  match found with
  | some row => row.imageTag
  | none => deriveImageTag ch e.tag none

def ReleaseEvent.run (e : ReleaseEvent) (id : ℕ) (found : Option Toolchain) : Run where
  id := id
  releaseTag := e.tag
  imageTag := e.imageTag ch found
  suiteIds := []
  status := .queued
  priority := 9
  triggeredBy := .githubRelease
  triggeredByUser := none
  appId := none

def ReleaseEvent.request (e : ReleaseEvent) (id : ℕ) (found : Option Toolchain) : SandboxRequest where
  runId := id
  releaseTag := e.tag
  imageTag := e.imageTag ch found
  sdkVersion := (found.bind Toolchain.sdkTag).map lstripV
  cliVersion := (found.bind Toolchain.cliTag).map lstripV
  devnetVersion := found.bind Toolchain.devnetTag
  contractsVersion := found.bind Toolchain.contractsTag
  nodeMajorVersion := orNumber (found.bind Toolchain.nodeMajorVersion) (some (Catalog.nodeMajorVersion ch e.tag))
  priority := 9
  requestedBy := some "github-watcher"
  appId := none
  appName := none
  appGithubUrl := none

end Events

section Triggers
variable (ch : Characters) (uuid : String → Option Uuid)

/-- The validation of `app_id`. -/
def TriggerRunRequest.application (body : TriggerRunRequest) (tables : Tables) : TriggerStage :=
  match body.appId.filter (· ≠ "") with
  | none => .insert none
  | some text =>
    match uuid text with
    | none => .ended
    | some appId =>
      match tables.applications appId with
      | none => .ended
      | some app => if app.isActive then .insert (some ⟨appId, app.name, app.githubUrl⟩) else .ended

/-- The row of the run, none if a value is not one of its column's. -/
def TriggerRunRequest.run (body : TriggerRunRequest) (id : ℕ) (target : Option Target) : Option Run := do
  let suiteIds ← (body.suiteIds.getD []).mapM uuid
  let triggeredBy ← TriggeredBy.parse body.triggeredBy
  if -32768 ≤ body.priority ∧ body.priority ≤ 32767 then
    some ⟨id, body.releaseTag, body.imageTag, suiteIds, .queued, body.priority, triggeredBy, body.triggeredByUser,
      target.map Target.appId⟩
  else none

def TriggerRunRequest.request (body : TriggerRunRequest) (id : ℕ) (target : Option Target)
    (found : Option Toolchain) : SandboxRequest where
  runId := id
  releaseTag := body.releaseTag
  imageTag := body.imageTag
  sdkVersion := orText body.sdkVersion ((found.bind Toolchain.sdkTag).map lstripV)
  cliVersion := orText body.cliVersion ((found.bind Toolchain.cliTag).map lstripV)
  devnetVersion := found.bind Toolchain.devnetTag
  contractsVersion := found.bind Toolchain.contractsTag
  nodeMajorVersion := orNumber body.nodeMajorVersion
    (match found with
    | some row => row.nodeMajorVersion
    | none => some (Catalog.nodeMajorVersion ch body.releaseTag))
  priority := body.priority
  requestedBy := body.triggeredByUser
  appId := target.map Target.appId
  appName := target.map Target.name
  appGithubUrl := target.map Target.githubUrl

end Triggers

/-- What an operation leaves in the database or at the broker. -/
inductive Effect
  | nothing
  | commit (run : Run)
  | publish (request : SandboxRequest)
  deriving DecidableEq, Repr

section System
variable (ch : Characters) (uuid : String → Option Uuid)

/-- The next operation of the handler at position `i` succeeds. -/
def Handler.next (tables : Tables) (runs : List Run) (i : ℕ) : Handler → Option (Handler × Effect)
  | .event e .check => some (.event e (if runs.any (·.ofRelease e.tag) then .ended else .lookup), .nothing)
  | .event e .lookup => some (.event e (.insert (Catalog.lookup tables.catalog e.tag)), .nothing)
  | .event e (.insert found) => some (.event e (.publish (e.request ch i found)), .commit (e.run ch i found))
  | .event e (.publish request) => some (.event e .ended, .publish request)
  | .event _ .ended => none
  | .trigger body .application => some (.trigger body (body.application uuid tables), .nothing)
  | .trigger body (.insert target) =>
    match body.run uuid i target with
    | some run => some (.trigger body (.refresh target), .commit run)
    | none => some (.trigger body .ended, .nothing)
  | .trigger body (.refresh target) => some (.trigger body (.lookup target), .nothing)
  | .trigger body (.lookup target) =>
    let request := body.request ch i target (Catalog.lookup tables.catalog body.releaseTag)
    some (.trigger body (.publish request), .nothing)
  | .trigger body (.publish request) => some (.trigger body .ended, .publish request)
  | .trigger _ .ended => none

/-- The runs, the published requests, and the handlers in the order they started. -/
structure State where
  runs : List Run
  requests : List SandboxRequest
  handlers : List Handler
  deriving DecidableEq, Repr

def initial : State := ⟨[], [], []⟩

inductive Act
  | deliver (e : ReleaseEvent)
  | trigger (body : TriggerRunRequest)
  | advance (i : ℕ) (tables : Tables)
  | fail (i : ℕ)

def State.put (s : State) (i : ℕ) (h : Handler) : State := { s with handlers := s.handlers.set i h }

def State.apply (s : State) : Effect → State
  | .nothing => s
  | .commit run => { s with runs := s.runs ++ [run] }
  | .publish request => { s with requests := s.requests ++ [request] }

/-- An event, new or delivered again, waits until the one before it has been handled. -/
def step (s : State) : Act → Option State
  | .deliver e =>
    if s.handlers.any Handler.handlesEvent then none
    else some { s with handlers := s.handlers ++ [.event e .check] }
  | .trigger body => some { s with handlers := s.handlers ++ [.trigger body .application] }
  | .advance i tables => s.handlers[i]?.bind fun h =>
      (h.next ch uuid tables s.runs i).map fun (h', effect) => (s.put i h').apply effect
  | .fail i => s.handlers[i]?.bind fun h => if h.phase = .ended then none else some (s.put i h.stop)

end System

/-- The handler at position `i` has committed its queued run. -/
def State.HasRun (s : State) (i : ℕ) : Prop := ∃ r ∈ s.runs, r.id = i ∧ r.status = .queued

def State.Requested (s : State) (i : ℕ) : Prop := ∃ q ∈ s.requests, q.runId = i

/-- The run was inserted by the trigger endpoint. -/
def State.ByTrigger (s : State) (r : Run) : Prop :=
  ∃ h : Handler, s.handlers[r.id]? = some h ∧ h.isTrigger = true

/-- The request describes the run. -/
structure SandboxRequest.Matches (q : SandboxRequest) (r : Run) : Prop where
  releaseTag : q.releaseTag = r.releaseTag
  imageTag : q.imageTag = r.imageTag
  priority : q.priority = r.priority
  appId : q.appId = r.appId

/-- Runs and requests agree: a handler that has ended has a queued run exactly if the request of the
run was published, a request describes its run, and a tag has one run of its release. -/
structure Agrees (s : State) : Prop where
  published : ∀ (i : ℕ) (h : Handler), s.handlers[i]? = some h → h.phase = .ended → (s.HasRun i ↔ s.Requested i)
  matching : ∀ r ∈ s.runs, ∀ q ∈ s.requests, q.runId = r.id → q.Matches r
  single : ∀ tag, AtMostOne (fun r : Run => r.ofRelease tag = true) s.runs

end ReleaseValidation.Orchestrator.RunTriggers
