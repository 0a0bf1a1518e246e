import ReleaseValidation.TestRunner.Definitions

/-! # Running the assertions of a test

`run_test` dispatches each assertion to its executor in order, and compiles the
results. An exception or the timeout ends the loop; the results so far are kept.
-/
namespace ReleaseValidation.TestRunner
open Store Programs

/-- What an assertion expects or finds: a JSON value, or one that `json.dumps` refuses. -/
inductive Value
  | json (j : Json)
  | other (typeName : String)

structure AssertionResult where
  assertionType : Json
  passed : Bool
  expected : Option Value
  actual : Option Value
  detail : Option String

namespace AssertionResult

def dumpable (r : AssertionResult) : Bool :=
  match r.expected, r.actual with
  | some (.other _), _ | _, some (.other _) => false
  | _, _ => true

end AssertionResult

/-- How the executor of an assertion ends. -/
inductive Execution
  | results (items : List AssertionResult)
  | timeout
  | raised (text : String)

structure Outcome where
  status : TestStatus
  durationMs : ℤ
  assertionResults : List AssertionResult
  errorMessage : Option String

/-- The keys of `_EXECUTORS`. -/
def executorTypes : List String :=
  ["graphql", "http_status", "log_contains", "chain_tx", "voucher", "json_rpc", "portal_deposit",
    "voucher_v2", "health_check", "inspect_query", "notice_check", "cli_command", "service_restart",
    "metrics_check"]

/-- `_EXECUTORS.get(atype)`, `true` if there is one. -/
def hasExecutor : Json → Except Err Bool
  | .str s => .ok (executorTypes.contains s)
  | .arr _ => .error (.exception "unhashable type: 'list'")
  | .obj _ => .error (.exception "unhashable type: 'dict'")
  | _ => .ok false

/-- The executors, and what else `run_test` observes. -/
structure Executors where
  /-- The `k`-th assertion of the test. -/
  execute : ℕ → Json → Execution
  /-- `str(j)`. -/
  str : Json → String
  durationMs : ℤ

namespace RunTest
variable (x : Executors)

/-- `results` and `overall_status`. -/
structure Progress where
  results : List AssertionResult
  failed : Bool

def Progress.add (p : Progress) (items : List AssertionResult) : Progress :=
  ⟨p.results ++ items, p.failed || items.any (fun item => !item.passed)⟩

def unknownType (atype : Json) : AssertionResult :=
  ⟨atype, false, none, none, some ("Unknown assertion type: " ++ x.str atype)⟩

/-- One iteration of the loop. -/
def runAssertion (k : ℕ) (assertion : Json) : Execution :=
  match (do
    let atype ← assertion.get "type" .null
    let known ← hasExecutor atype
    pure (atype, known) : Except Err (Json × Bool)) with
  | .error e => .raised e.text
  | .ok (atype, false) => .results [unknownType x atype]
  | .ok (_, true) => x.execute k assertion

/-- The loop, with the exception that leaves it. -/
def runAssertions : ℕ → List Json → Progress → Progress × Option Execution
  | _, [], p => (p, none)
  | k, a :: as, p =>
    match runAssertion x k a with
    | .results items => runAssertions (k + 1) as (p.add items)
    | e => (p, some e)

def conclude (timeoutSeconds : ℤ) : Progress × Option Execution → TestStatus × Option String
  | (p, none) | (p, some (.results _)) => (if p.failed then .failed else .passed, none)
  | (_, some .timeout) => (.timeout, some ("Test exceeded timeout of " ++ toString timeoutSeconds ++ "s"))
  | (_, some (.raised text)) => (.error, some text)

end RunTest

open RunTest in
/-- `run_test`. A parsed definition that is no object, or whose assertions have no length,
raises before the guarded loop. -/
def runTest (x : Executors) (definition : Definition) : Except Err Outcome := do
  let assertions ← definition.definitionParsed.get "assertions" (.arr [])
  let _ ← assertions.len
  let items ← assertions.elements
  let ended := runAssertions x 0 items ⟨[], false⟩
  let (status, errorMessage) := conclude definition.timeoutSeconds ended
  pure ⟨status, x.durationMs, ended.1.results, errorMessage⟩

namespace RunTest

theorem conclude_terminal (timeoutSeconds : ℤ) (ended : Progress × Option Execution) :
    (conclude timeoutSeconds ended).1.terminal = true := by
  obtain ⟨p, e⟩ := ended
  cases e with
  | none => cases h : p.failed <;> simp only [conclude, h] <;> rfl
  | some e =>
    cases e with
    | results items => cases h : p.failed <;> simp only [conclude, h] <;> rfl
    | timeout => rfl
    | raised text => rfl

end RunTest

theorem runTest_terminal {x : Executors} {definition : Definition} {outcome : Outcome}
    (h : runTest x definition = .ok outcome) : outcome.status.terminal = true := by
  obtain ⟨assertions, -, h⟩ := except_bind_ok h
  obtain ⟨n, -, h⟩ := except_bind_ok h
  obtain ⟨items, -, h⟩ := except_bind_ok h
  obtain rfl := Except.ok.inj h
  exact RunTest.conclude_terminal definition.timeoutSeconds _

end ReleaseValidation.TestRunner
