import ReleaseValidation.Foundations.Programs
import ReleaseValidation.SandboxManager.Pool

/-! # The task that handles one sandbox request

`SandboxQueueConsumer._handle` with the helpers it awaits, in the order of the
source. Each awaited operation is a site of the environment, which says how the
operation ends and what it reads; the world holds the pool, the sandbox rows and
what the task has published or asked the provisioner to remove.
-/
namespace ReleaseValidation.SandboxManager
open Store Programs

/-- A message of `sandbox.queue`. -/
structure SandboxRequest where
  runId : Uuid
  releaseTag : String
  imageTag : String
  sdkVersion : Option String
  cliVersion : Option String
  devnetVersion : Option String
  contractsVersion : Option String
  nodeMajorVersion : ℤ
  appName : Option String
  appGithubUrl : Option String
  deriving DecidableEq, Repr

/-- The arguments of `provisioner.provision`. -/
structure ProvisionCall where
  sandboxId : Uuid
  request : SandboxRequest
  portOffset : ℕ
  contractsVersion : Option String
  deriving DecidableEq, Repr

/-- What `_handle` uses of the value that `provisioner.provision` returns. -/
structure Info where
  containerIds : List String
  dockerNetwork : String
  perSandboxVolume : Option String
  appAddress : Option String
  deriving DecidableEq, Repr

/-- What `_teardown` reads back from a sandbox row. -/
structure Resources where
  containerIds : List String
  dockerNetwork : Option String
  snapshotVolume : Option String
  deriving DecidableEq, Repr

def Resources.none : Resources := ⟨[], .none, .none⟩

def Info.resources (info : Info) : Resources := ⟨info.containerIds, some info.dockerNetwork, info.perSandboxVolume⟩

/-- A row of `sandbox.sandboxes`; an absent list of containers reads like an empty one. -/
structure SandboxRow where
  runId : Uuid
  status : SandboxStatus
  resources : Resources
  failureReason : Option String
  deriving DecidableEq, Repr

def SandboxRow.inserted (runId : Uuid) : SandboxRow := ⟨runId, .requested, .none, none⟩

inductive EventType
  | provisioning
  | ready
  | failed
  | closed
  deriving DecidableEq, Repr

/-- What the task has done outside itself, in order. -/
inductive Effect
  | published (event : EventType) (reason : Option String)
  | teardownCalled (sandboxId : Uuid) (containerIds : List String) (network : String)
      (volume : Option String)
  | rowClosed (sandboxId : Uuid)
  deriving DecidableEq, Repr

/-- The calls of the provisioner's teardown, and the closings of rows. -/
def Effect.isTeardown : Effect → Bool
  | published _ _ => false
  | teardownCalled _ _ _ _ | rowClosed _ => true

structure World (max : ℕ) where
  pool : Pool max
  sandboxes : AList (fun _ : Uuid => SandboxRow)
  /-- `_port_offset_counter`. -/
  portOffsetCounter : ℕ
  journal : List Effect
  /-- The local `sandbox_provisioned`. -/
  provisioned : Bool

/-- The awaited operations of `_handle`. -/
inductive Site
  | resolveContracts
  | acquireLock
  | preCheck
  | markProvisioning
  | publishProvisioning
  | provision
  | markFailed
  | publishFailed
  | waitV2
  | readyDelay
  | postCheck
  | markReady
  | storeAppAddress
  | publishReady
  | isAiSession
  | pollSleep (k : ℕ)
  | pollCheck (k : ℕ)
  | pollSessions (k : ℕ)
  | pollDispatched (k : ℕ)
  | pollCounts (k : ℕ)
  | markCrashed
  | publishCrashed
  | teardownRead
  | teardown
  | closeRow
  | publishClosed
  | releaseLock
  deriving DecidableEq, Repr

/-- How the awaited operations end, and what they read. -/
structure Env where
  sandboxId : Uuid
  fault : Site → Option (Fault Err)
  /-- Whether the run's status reads as cancelled. -/
  cancelled : Site → Bool
  contractsTag : Option String
  provision : ProvisionCall → Info
  aiSession : Bool
  /-- Some session exists for the run, and one of them is starting or active. -/
  sessions : ℕ → Bool × Bool
  dispatched : ℕ → ℕ
  /-- The rows of the sandbox that are in flight, and all of them. -/
  counts : ℕ → ℕ × ℕ
  sessionGrace : ℕ
  timeout : ℕ

abbrev Task (max : ℕ) (α : Type) := Program (World max) Err α

variable {max : ℕ}

namespace World

def log (e : Effect) (w : World max) : World max := { w with journal := w.journal ++ [e] }

/-- `_upsert_sandbox`: insert the row, or set only the given columns. -/
def upsert (sandboxId runId : Uuid) (set : SandboxRow → SandboxRow) (w : World max) : World max :=
  { w with
    sandboxes := w.sandboxes.insert sandboxId
      (set ((w.sandboxes.lookup sandboxId).getD (.inserted runId))) }

/-- What `_teardown` reads. -/
def resources (sandboxId : Uuid) (w : World max) : Resources :=
  ((w.sandboxes.lookup sandboxId).map SandboxRow.resources).getD .none

def teardowns (w : World max) : List Effect := w.journal.filter Effect.isTeardown

/-- `UPDATE … SET status='closed' … WHERE id=:id`. -/
def closeRow (sandboxId : Uuid) (w : World max) : World max :=
  { w with
    sandboxes := match w.sandboxes.lookup sandboxId with
      | some row => w.sandboxes.insert sandboxId { row with status := .closed }
      | none => w.sandboxes
    journal := w.journal ++ [.rowClosed sandboxId] }

end World

namespace SandboxTask
variable (env : Env) (msg : SandboxRequest)

/-- `_is_run_cancelled`: an error reads as "not cancelled". -/
def isRunCancelled (site : Site) : Task max Bool := swallow (env.fault site) (env.cancelled site) false

/-- An empty text counts as absent. -/
def truthy (s : Option String) : Bool := s.any (· != "")

/-- `_resolve_contracts_version`, called when the message names no version. -/
def resolveContractsVersion : Task max (Option String) :=
  if !truthy msg.contractsVersion && msg.releaseTag != "" then
    swallow (env.fault .resolveContracts) env.contractsTag none
  else pure msg.contractsVersion

def publish (site : Site) (event : EventType) (reason : Option String) : Task max Unit :=
  await (env.fault site) (Program.write (World.log (.published event reason)))

def upsertSandbox (site : Site) (set : SandboxRow → SandboxRow) : Task max Unit :=
  await (env.fault site) (Program.write (World.upsert env.sandboxId msg.runId set))

def claimSlot : Task max Bool := fun w =>
  (.returned (w.pool.acquire env.sandboxId msg.runId).1,
    { w with pool := (w.pool.acquire env.sandboxId msg.runId).2 })

/-- `pool.acquire`: nothing is awaited once the lock is taken. -/
def acquireSlot : Task max Bool := do
  await (env.fault .acquireLock) (pure ())
  claimSlot env msg

def releaseSlot : Task max Unit := do
  await (env.fault .releaseLock) (pure ())
  Program.write fun w => { w with pool := w.pool.release env.sandboxId }

def takePortOffset : Task max ℕ := fun w =>
  (.returned (w.portOffsetCounter % 50), { w with portOffsetCounter := w.portOffsetCounter + 1 })

/-- One iteration of the loop of `_wait_for_tests`; an answer leaves the loop. -/
def pollOnce (aiSessionRun : Bool) (k : ℕ) : Task max (Option Unit) := do
  await (env.fault (.pollSleep k)) (pure ())
  let cancelled ← isRunCancelled env (.pollCheck k)
  if cancelled then pure (some ())
  else if aiSessionRun then do
    let (exists_, active) ← swallow (env.fault (.pollSessions k)) (env.sessions k) (true, true)
    if exists_ && !active then pure (some ())
    else if !exists_ && decide (env.sessionGrace < 5 * (k + 1)) then pure (some ())
    else pure none
  else do
    let dispatched ← await (env.fault (.pollDispatched k)) (pure (env.dispatched k))
    let (inFlight, totalStarted) ← await (env.fault (.pollCounts k)) (pure (env.counts k))
    if decide (0 < dispatched) && decide (dispatched ≤ totalStarted) && inFlight == 0 then pure (some ())
    else pure none

/-- `_wait_for_tests`: it returns also when the loop runs out. -/
def waitForTests : Task max Unit := do
  let aiSessionRun ← swallow (env.fault .isAiSession) env.aiSession false
  let _ ← Program.forRange (pollOnce env aiSessionRun) 0 (env.timeout / 5)
  pure ()

/-- `provisioner.teardown`, with what the row names. -/
def callTeardown (sbx : Resources) : Task max Unit := do
  Program.write (World.log (.teardownCalled env.sandboxId sbx.containerIds
    (sbx.dockerNetwork.getD "") sbx.snapshotVolume))
  await (env.fault .teardown) (pure ())

/-- `_teardown`. -/
def teardown : Task max Unit := do
  let sbx ← await (env.fault .teardownRead) (Program.read (World.resources env.sandboxId))
  Program.when (sbx.containerIds ≠ []) (callTeardown env sbx)
  await (env.fault .closeRow) (Program.write (World.closeRow env.sandboxId))
  publish env .publishClosed .closed none

/-- The handler of the inner `try`. -/
def markFailed (exc : Err) : Task max (Option Info) := do
  upsertSandbox env msg .markFailed fun row =>
    { row with status := .failed, failureReason := some exc.text }
  publish env .publishFailed .failed (some exc.text)
  pure none

/-- The body of the inner `try`. -/
def provisionBody (contractsVersion : Option String) (portOffset : ℕ) : Task max (Option Info) := do
  let info ← await (env.fault .provision)
    (pure (env.provision ⟨env.sandboxId, msg, portOffset, contractsVersion⟩))
  Program.write fun w => { w with provisioned := true }
  pure (some info)

/-- The inner `try`: provision, or mark the sandbox failed and say so. -/
def provisionSandbox (contractsVersion : Option String) (portOffset : ℕ) : Task max (Option Info) :=
  Program.tryExcept (provisionBody env msg contractsVersion portOffset) Err.isException (markFailed env msg)

/-- From the ready event on. -/
def announceAndWait (info : Info) : Task max Unit := do
  Program.when (truthy info.appAddress = true) (await (env.fault .storeAppAddress) (pure ()))
  publish env .publishReady .ready none
  waitForTests env

/-- From the return of `provision` on. -/
def runTests (info : Info) : Task max Unit := do
  Program.when (2 ≤ msg.nodeMajorVersion ∧ 7 ≤ info.containerIds.length)
    (await (env.fault .waitV2) (pure ()))
  await (env.fault .readyDelay) (pure ())
  let cancelled ← isRunCancelled env .postCheck
  if cancelled then pure ()
  else do
    upsertSandbox env msg .markReady fun row => { row with status := .ready, resources := info.resources }
    announceAndWait env info

/-- The body of the outer `try`. -/
def body (contractsVersion : Option String) (portOffset : ℕ) : Task max Unit := do
  let cancelled ← isRunCancelled env .preCheck
  if cancelled then pure ()
  else do
    upsertSandbox env msg .markProvisioning fun row => { row with status := .provisioning }
    publish env .publishProvisioning .provisioning none
    let info ← provisionSandbox env msg contractsVersion portOffset
    match info with
    | none => pure ()
    | some info => runTests env msg info

/-- The handler of the outer `try`. -/
def markCrashed (exc : Err) : Task max Unit := do
  upsertSandbox env msg .markCrashed fun row =>
    { row with status := .failed, failureReason := some exc.text }
  publish env .publishCrashed .failed (some exc.text)

/-- The `finally` block. -/
def cleanup : Task max Unit := do
  let provisioned ← Program.read World.provisioned
  Program.when (provisioned = true) (teardown env)
  releaseSlot env

/-- `_handle` once it holds a slot. -/
def useSlot (contractsVersion : Option String) : Task max Unit := do
  let portOffset ← takePortOffset
  Program.write fun w => { w with provisioned := false }
  Program.tryFinally
    (Program.tryExcept (body env msg contractsVersion portOffset) Err.isException (markCrashed env msg))
    (cleanup env)

/-- `_handle`. -/
def handle : Task max Unit := do
  let contractsVersion ← resolveContractsVersion env msg
  let acquired ← acquireSlot env msg
  if acquired then useSlot env msg contractsVersion else pure ()

end SandboxTask

end ReleaseValidation.SandboxManager
