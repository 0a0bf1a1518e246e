import ReleaseValidation.TestRunner.Execution

/-! # The task that handles one test command

`TestCommandConsumer._handle` in the order of the source, and the delivery around it:
an exception of the handler is logged and the message acknowledged all the same. Each
awaited operation is a site of the environment; the world holds the result rows and
the published result messages.
-/
namespace ReleaseValidation.TestRunner
open Store Programs Tables

/-- A message of `tests.commands` or of `tests.commands.ai`; what only the executors read
of it is left to them. -/
structure TestCommand where
  runId : Uuid
  sandboxId : Uuid
  definitionId : Uuid
  definitionVersion : ℤ
  definitionSlug : String
  /-- Chosen by the agent that triggered the test. -/
  resultId : Option Uuid
  parameterOverrides : Json
  definitionParsedOverride : Json

/-- A row of `tests.results`. -/
structure ResultRow where
  runId : Uuid
  sandboxId : Uuid
  definitionId : Uuid
  definitionVersion : ℤ
  status : TestStatus
  durationMs : Option ℤ
  assertionResults : Option (List AssertionResult)
  errorMessage : Option String

structure ResultMessage where
  runId : Uuid
  sandboxId : Uuid
  resultId : Uuid
  definitionId : Uuid
  definitionVersion : ℤ
  definitionSlug : String
  status : TestStatus
  durationMs : ℤ
  assertionResults : List AssertionResult
  errorMessage : Option String

structure World where
  results : Table Uuid ResultRow
  published : List ResultMessage

/-- The awaited operations of a delivery. -/
inductive Site
  | checkCancelled
  | insertSkipped
  | publishSkipped
  | cacheLock
  | insertRunning
  | runTest
  | updateResult
  | publishLogBatch
  | publishResult
  | ack
  deriving DecidableEq, Repr

structure Env where
  fault : Site → Option (Fault Err)
  /-- Whether the run's status reads as cancelled. -/
  cancelled : Bool
  cache : DefinitionLoader.Cache
  /-- `uuid.uuid4()`. -/
  freshId : Uuid
  /-- `int(s)`, `none` where it raises `ValueError`. -/
  int : String → Option ℤ
  executors : Executors
  /-- From the insert of the row to an exception of `run_test`. -/
  elapsedMs : ℤ

abbrev Task (α : Type) := Program World Err α

namespace TestCommand

def row (msg : TestCommand) (status : TestStatus) : ResultRow :=
  ⟨msg.runId, msg.sandboxId, msg.definitionId, msg.definitionVersion, status, none, none, none⟩

def message (msg : TestCommand) (resultId : Uuid) (outcome : Outcome) : ResultMessage :=
  ⟨msg.runId, msg.sandboxId, resultId, msg.definitionId, msg.definitionVersion, msg.definitionSlug,
    outcome.status, outcome.durationMs, outcome.assertionResults, outcome.errorMessage⟩

end TestCommand

def ResultRow.settle (outcome : Outcome) (row : ResultRow) : ResultRow :=
  { row with
    status := outcome.status
    durationMs := some outcome.durationMs
    assertionResults := some outcome.assertionResults
    errorMessage := outcome.errorMessage }

def Outcome.skipped : Outcome := ⟨.skipped, 0, [], some "Run cancelled"⟩

/-- The outcome of a test whose run raised. -/
def Outcome.crashed (elapsedMs : ℤ) (e : Err) : Outcome :=
  ⟨.error, elapsedMs, [], some (String.ofList (e.text.toList.take 500))⟩

def Outcome.dumpable (outcome : Outcome) : Bool := outcome.assertionResults.all AssertionResult.dumpable

namespace World

/-- `INSERT INTO tests.results`: a taken id is refused. -/
def insertResult (resultId : Uuid) (row : ResultRow) : Task Unit := fun w =>
  if resultId ∈ w.results then
    (.raised (.exception "duplicate key value violates unique constraint"), w)
  else (.returned (), { w with results := w.results.insert resultId row })

/-- `UPDATE tests.results … WHERE id=:id`. -/
def updateResult (resultId : Uuid) (outcome : Outcome) (w : World) : World :=
  match w.results.lookup resultId with
  | some row => { w with results := w.results.insert resultId (row.settle outcome) }
  | none => w

def publish (m : ResultMessage) (w : World) : World := { w with published := w.published ++ [m] }

end World

namespace CommandTask
variable (env : Env) (msg : TestCommand)

def isRunCancelled : Task Bool := swallow (env.fault .checkCancelled) env.cancelled false

/-- `_publish_result`. -/
def publishResult (site : Site) (resultId : Uuid) (outcome : Outcome) : Task Unit :=
  await (env.fault site) (Program.write (World.publish (msg.message resultId outcome)))

/-- The answer to a command whose run is cancelled. -/
def skip : Task Unit := do
  await (env.fault .insertSkipped) (World.insertResult env.freshId (msg.row .skipped))
  publishResult env msg .publishSkipped env.freshId .skipped

/-- `ai_result_id or str(uuid.uuid4())`. -/
def resultId : Uuid := (msg.resultId.filter (· != "")).getD env.freshId

/-- `run_test`, with an exception turned into an outcome. -/
def runOutcome (definition : Definition) : Task Outcome :=
  Program.tryExcept
    (await (env.fault .runTest) (Program.ofExcept (runTest env.executors definition)))
    Err.isException (fun e => pure (.crashed env.elapsedMs e))

/-- `json.dumps` of the assertion results. -/
def dumpResults (outcome : Outcome) : Task Unit :=
  if outcome.dumpable then pure ()
  else Program.raise (.exception "Object is not JSON serializable")

/-- The publishes of the log batch and of the result. -/
def announce (outcome : Outcome) : Task Unit := do
  swallow (env.fault .publishLogBatch) () ()
  publishResult env msg .publishResult (resultId env msg) outcome

/-- From the outcome of the test on. -/
def settle (outcome : Outcome) : Task Unit := do
  dumpResults outcome
  await (env.fault .updateResult) (Program.write (World.updateResult (resultId env msg) outcome))
  announce env msg outcome

/-- From the insert of the running row on. -/
def runCommand (definition : Definition) : Task Unit := do
  await (env.fault .insertRunning) (World.insertResult (resultId env msg) (msg.row .running))
  let outcome ← runOutcome env definition
  settle env msg outcome

/-- `_handle`. -/
def handle : Task Unit := do
  let cancelled ← isRunCancelled env
  if cancelled then skip env msg
  else do
    let definition ← await (env.fault .cacheLock) (pure (DefinitionLoader.get env.cache msg.definitionId))
    match definition with
    | none => pure ()
    | some definition => do
      let definition ← Program.ofExcept
        (Overrides.override env.int definition msg.definitionParsedOverride msg.parameterOverrides)
      runCommand env msg definition

/-- One delivery: the body of the loop of `_consume`. -/
def consume : Task Unit := do
  Program.tryExcept (handle env msg) Err.isException (fun _ => pure ())
  await (env.fault .ack) (pure ())

/-- The world after the message has been delivered to a worker in each environment in turn. -/
def deliver (msg : TestCommand) (w : World) (envs : List Env) : World :=
  envs.foldl (fun w env => (consume env msg w).2) w

end CommandTask

end ReleaseValidation.TestRunner
