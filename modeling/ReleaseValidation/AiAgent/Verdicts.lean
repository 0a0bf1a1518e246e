import Mathlib.Algebra.Order.Ring.Unbundled.Rat
import Mathlib.Data.List.Infix
import Mathlib.Data.List.Sort
import ReleaseValidation.AiAgent.Sessions
import ReleaseValidation.Foundations.Serials
import ReleaseValidation.Store.Json

/-! # The audit of tool calls and the verdicts on tests

Each tool call of a session leaves a row in `ai.tool_invocations` once it has been run.
A verdict claims the rows that no verdict has claimed so far, as many as the cap allows,
and is written to `ai.test_verdicts` in the same transaction; a test that has a verdict
in the session keeps its row, which is overwritten. The calls of a session follow one
another. `ω` is what an audit row keeps of a call beside the tool and its input.
-/
namespace ReleaseValidation.AiAgent.Verdicts
open Store Serials
variable {ω : Type}

/-- The values of the column `verdict`. -/
inductive Verdict
  | passed
  | failed
  | blocked
  | skipped
  | inconclusive
  deriving DecidableEq, Repr

namespace Verdict

def name : Verdict → String
  | passed => "passed"
  | failed => "failed"
  | blocked => "blocked"
  | skipped => "skipped"
  | inconclusive => "inconclusive"

/-- `verdict in VALID_VERDICTS`. -/
def parse : Json → Option Verdict
  | .str s => [passed, failed, blocked, skipped, inconclusive].find? fun v => v.name = s
  | _ => none

/-- `verdict in ("passed", "failed")`. -/
def decisive : Verdict → Bool
  | passed | failed => true
  | _ => false

end Verdict

abbrev ToolInput := List (String × Json)

/-- A row of `ai.tool_invocations`. -/
structure Invocation (ω : Type) where
  id : ℕ
  sessionId : ℕ
  toolName : String
  input : ToolInput
  content : ω
  verdictId : Option ℕ
  createdAt : ℕ

/-- A row of `ai.test_verdicts`. -/
structure VerdictRow where
  id : ℕ
  sessionId : ℕ
  definitionSlug : String
  verdict : Verdict
  reasoning : String
  confidence : Option ℚ
  evidenceValidated : Bool
  validationNotes : Option String
  autoDowngradedFrom : Option Verdict
  trailStepCount : Option ℕ
  trailMutatingCount : Option ℕ
  trailTruncated : Bool
  deriving DecidableEq, Repr

structure State (ω : Type) where
  invocations : List (Invocation ω)
  verdicts : List VerdictRow

def initial : State ω := ⟨[], []⟩

/-- The arguments of `record_test_verdict` that have passed its checks. -/
structure Submission where
  definitionSlug : String
  verdict : Verdict
  reasoning : String
  evidence : Json
  observations : Json
  confidence : Option ℚ

/-- How values are converted, and the search for cited values in the trail. -/
structure Reading (ω : Type) where
  str : Json → String
  repr : Json → String
  /-- `float(v)`, if it does not raise. -/
  float : Json → Option ℚ
  /-- `_evidence_validated`. -/
  evidenceValidated : Submission → List (Invocation ω) → Bool

inductive Answer
  /-- `{"success": False, "error": error}`. -/
  | refused (error : String)
  /-- An exception, for which `execute` answers `Internal error: …`. -/
  | raised
  | recorded (row : VerdictRow)
  /-- What another tool returns. -/
  | returned
  deriving DecidableEq, Repr

structure Call (ω : Type) where
  sessionId : ℕ
  toolName : String
  input : ToolInput
  content : ω

/-- What the database does during a call. -/
structure Database where
  /-- `get_pool` finds one. -/
  pool : Bool
  /-- The transaction of the verdict is committed. -/
  committed : Bool
  /-- The audit row is inserted. -/
  audited : Bool
  now : ℕ
  deriving DecidableEq, Repr

inductive Act (ω : Type)
  | execute (call : Call ω) (db : Database)
  /-- `_record_missing_verdicts`. -/
  | recordMissing (sessionId : ℕ) (executionMode : ExecutionMode) (selectedTests : List String) (committed : Bool)

/-- `TRAIL_CAP`. -/
def trailCap : ℕ := 400

def bookkeepingTools : List String := ["read_test_definition", "record_test_verdict", "record_test_plan"]

def mutatingTools : List String := ["send_advance_input", "advance_time", "restart_component", "pause_network"]

def cliMutatingHints : List String := ["send", "deploy", "execute", "register", "db init", "remove", "set"]

/-- `a in b` on strings. -/
def occursIn (a b : String) : Bool := decide (a.toList <:+: b.toList)

/-- `s.strip().split()[:1]`, the empty word for an empty list. -/
def firstWord (s : String) : String :=
  String.ofList ((s.toList.dropWhile (·.isWhitespace)).takeWhile (!·.isWhitespace))

section Recording
variable (R : Reading ω)

/-- `str(inp.get(key, ""))`. -/
def textOf (input : ToolInput) (key : String) : String := R.str ((input.lookup key).getD (.str ""))

/-- `_is_mutating`. -/
def isMutating (toolName : String) (input : ToolInput) : Bool :=
  if toolName ∈ mutatingTools then true
  else if toolName = "run_cast_command" then
    let command := textOf R input "command"
    decide (firstWord command ∈ ["send", "publish"]) || occursIn "anvil_mine" command || occursIn "anvil_set" command
  else if toolName = "run_cli_command" then
    let blob := (textOf R input "binary" ++ " " ++ textOf R input "args").toLower
    cliMutatingHints.any fun hint => occursIn hint blob
  else false

structure Trail (ω : Type) where
  steps : List (Invocation ω)
  truncated : Bool
  mutating : ℕ

/-- The condition of the query in `_claim_trail`. -/
def Invocation.claimable (sessionId : ℕ) (inv : Invocation ω) : Bool :=
  decide (inv.sessionId = sessionId) && inv.verdictId.isNone && decide (inv.toolName ∉ bookkeepingTools)

/-- `_claim_trail`. -/
def claimTrail (invocations : List (Invocation ω)) (sessionId : ℕ) : Trail ω :=
  let rows := ((invocations.filter (·.claimable sessionId)).insertionSort (·.createdAt ≤ ·.createdAt)).take
    (trailCap + 1)
  let steps := rows.take trailCap
  ⟨steps, decide (trailCap < rows.length), steps.countP fun inv => isMutating R inv.toolName inv.input⟩

/-- `inp[key]`. -/
def require (input : ToolInput) (key : String) : Except Answer Json :=
  match input.lookup key with
  | some v => .ok v
  | none => .error .raised

/-- `v` if `v and v.strip()`; what is true and not a string has no `strip`. -/
def nonBlank : Json → Except Answer (Option String)
  | .str s => .ok (if s.toList.all (·.isWhitespace) then none else some s)
  | v => if v.truthy then .error .raised else .ok none

/-- `max(0.0, min(1.0, float(confidence)))`, and `None` when it raises or nothing is given. -/
def readConfidence : Option Json → Option ℚ
  | none | some .null => none
  | some v => (R.float v).map fun x => max 0 (min 1 x)

/-- What `record_test_verdict` checks before it asks for a connection. -/
def submission (input : ToolInput) : Except Answer Submission := do
  let slug ← require input "definition_slug"
  let verdict ← require input "verdict"
  let reasoning ← require input "reasoning"
  match Verdict.parse verdict with
  | none => .error (.refused ("verdict must be one of ('passed', 'failed', 'blocked', 'skipped', 'inconclusive'), got " ++
      R.repr verdict))
  | some verdict =>
    match ← nonBlank slug with
    | none => .error (.refused "definition_slug must not be empty")
    | some slug =>
      match ← nonBlank reasoning with
      | none => .error (.refused "reasoning must not be empty")
      | some reasoning =>
        .ok ⟨slug, verdict, reasoning, (input.lookup "evidence").getD .null, (input.lookup "observations").getD .null,
          readConfidence R (input.lookup "confidence")⟩

namespace Submission

/-- The validation gate. -/
def gate (sub : Submission) (trail : Trail ω) : Verdict :=
  if sub.verdict.decisive ∧ trail.steps.length = 0 then .inconclusive else sub.verdict

def notes (sub : Submission) (trail : Trail ω) : List String :=
  let verdict := sub.gate trail
  (if verdict = sub.verdict then [] else
    ["Auto-downgraded from '" ++ sub.verdict.name ++ "': no execution trail — a verdict cannot be passed/failed " ++
      "without at least one tool call attributable to this test."]) ++
  (if verdict.decisive ∧ R.evidenceValidated sub trail.steps = false then
    ["Evidence not corroborated: no concrete literal (tx hash / value) in the reasoning or evidence was found in " ++
      "the captured trail."] else []) ++
  (if verdict.decisive ∧ sub.confidence = none then ["No confidence score provided."] else [])

/-- The columns of the row that is written for the submission. -/
def row (sub : Submission) (sessionId : ℕ) (trail : Trail ω) (id : ℕ) : VerdictRow where
  id := id
  sessionId := sessionId
  definitionSlug := sub.definitionSlug
  verdict := sub.gate trail
  reasoning := sub.reasoning
  confidence := sub.confidence
  evidenceValidated := R.evidenceValidated sub trail.steps
  validationNotes := if sub.notes R trail = [] then none else some (" ".intercalate (sub.notes R trail))
  autoDowngradedFrom := if sub.gate trail = sub.verdict then none else some sub.verdict
  trailStepCount := some trail.steps.length
  trailMutatingCount := some trail.mutating
  trailTruncated := trail.truncated

end Submission

/-- The key of `uq_verdict_session_slug`. -/
def VerdictRow.isFor (sessionId : ℕ) (slug : String) (v : VerdictRow) : Bool :=
  decide (v.sessionId = sessionId ∧ v.definitionSlug = slug)

/-- `INSERT … ON CONFLICT (session_id, definition_slug) DO UPDATE`, with the id of the row. -/
def upsert (verdicts : List VerdictRow) (sessionId : ℕ) (slug : String) (row : ℕ → VerdictRow) :
    List VerdictRow × ℕ :=
  match verdicts.find? (·.isFor sessionId slug) with
  | some old => (updateWhere (·.isFor sessionId slug) (fun v => row v.id) verdicts, old.id)
  | none => (verdicts ++ [row verdicts.length], verdicts.length)

/-- `UPDATE … SET verdict_id = … WHERE id = ANY(ids) AND verdict_id IS NULL`. -/
def link (invocations : List (Invocation ω)) (verdictId : ℕ) (ids : List ℕ) : List (Invocation ω) :=
  updateWhere (fun inv => decide (inv.id ∈ ids) && inv.verdictId.isNone)
    (fun inv => { inv with verdictId := some verdictId }) invocations

namespace State

/-- The transaction of `record_test_verdict`. -/
def recordVerdict (s : State ω) (sessionId : ℕ) (sub : Submission) : VerdictRow × State ω :=
  let trail := claimTrail R s.invocations sessionId
  let written := upsert s.verdicts sessionId sub.definitionSlug (sub.row R sessionId trail)
  (sub.row R sessionId trail written.2,
    ⟨link s.invocations written.2 (trail.steps.map (·.id)), written.1⟩)

/-- `record_test_verdict`. A statement that fails aborts the transaction, also where the code has a
handler for it and goes on. -/
def recordTestVerdict (s : State ω) (sessionId : ℕ) (input : ToolInput) (db : Database) : Answer × State ω :=
  match submission R input with
  | .error answer => (answer, s)
  | .ok sub =>
    if db.pool = false then (.refused "no DB pool", s)
    else if db.committed = false then (.raised, s)
    else (.recorded (s.recordVerdict R sessionId sub).1, (s.recordVerdict R sessionId sub).2)

/-- The insert of `record_invocation`. -/
def recordInvocation (s : State ω) (c : Call ω) (db : Database) : State ω :=
  if db.audited then
    { s with
      invocations := s.invocations ++
        [⟨s.invocations.length, c.sessionId, c.toolName, c.input, c.content, none, db.now⟩] }
  else s

def dispatch (s : State ω) (c : Call ω) (db : Database) : Answer × State ω :=
  if c.toolName = "record_test_verdict" then s.recordTestVerdict R c.sessionId c.input db else (.returned, s)

/-- `execute`: the call is run, then audited. -/
def execute (s : State ω) (c : Call ω) (db : Database) : Answer × State ω :=
  ((s.dispatch R c db).1, (s.dispatch R c db).2.recordInvocation c db)

/-- The row that `_record_missing_verdicts` inserts. -/
def blockedRow (sessionId : ℕ) (slug : String) (id : ℕ) : VerdictRow where
  id := id
  sessionId := sessionId
  definitionSlug := slug
  verdict := .blocked
  reasoning := "Auto-recorded: the session ended (tool/time budget or failure) before the agent reached this test."
  confidence := none
  evidenceValidated := false
  validationNotes := none
  autoDowngradedFrom := none
  trailStepCount := none
  trailMutatingCount := none
  trailTruncated := false

/-- `INSERT … ON CONFLICT (session_id, definition_slug) DO NOTHING`. -/
def insertBlocked (sessionId : ℕ) (verdicts : List VerdictRow) (slug : String) : List VerdictRow :=
  if verdicts.any (·.isFor sessionId slug) then verdicts
  else verdicts ++ [blockedRow sessionId slug verdicts.length]

/-- `_record_missing_verdicts`. -/
def recordMissingVerdicts (s : State ω) (sessionId : ℕ) (executionMode : ExecutionMode) (selectedTests : List String)
    (committed : Bool) : State ω :=
  if executionMode ≠ .aiManual ∨ selectedTests = [] ∨ committed = false then s
  else
    let missing := selectedTests.filter fun slug => !s.verdicts.any (·.isFor sessionId slug)
    { s with verdicts := missing.foldl (insertBlocked sessionId) s.verdicts }

end State

def step (s : State ω) : Act ω → Option (State ω)
  | .execute c db => some (s.execute R c db).2
  | .recordMissing sessionId executionMode selectedTests committed =>
    some (s.recordMissingVerdicts sessionId executionMode selectedTests committed)

end Recording

end ReleaseValidation.AiAgent.Verdicts
