import Mathlib.Data.Nat.Notation
import Mathlib.Data.Rat.Defs

/-! # Status columns and rows of the shared database

The enumerations are those of the database schema. A run is terminal once its
status is one of completed, warning, failed or cancelled; a test result is in
flight while its status is pending or running.
-/
namespace ReleaseValidation.Store

/-- Primary keys, as the services pass them around: strings. -/
abbrev Uuid := String

inductive RunStatus
  | queued | provisioning | running | completed | failed | warning | cancelled
  deriving DecidableEq, Repr

namespace RunStatus

def terminal : RunStatus → Bool
  | completed | failed | warning | cancelled => true
  | queued | provisioning | running => false

@[simp] theorem terminal_completed : completed.terminal = true := rfl
@[simp] theorem terminal_failed : failed.terminal = true := rfl
@[simp] theorem terminal_warning : warning.terminal = true := rfl
@[simp] theorem terminal_cancelled : cancelled.terminal = true := rfl
@[simp] theorem terminal_queued : queued.terminal = false := rfl
@[simp] theorem terminal_provisioning : provisioning.terminal = false := rfl
@[simp] theorem terminal_running : running.terminal = false := rfl

end RunStatus

inductive SandboxStatus
  | requested | queued | provisioning | ready | running | teardown | closed | failed
  deriving DecidableEq, Repr

inductive TestStatus
  | pending | running | passed | failed | error | skipped | timeout
  deriving DecidableEq, Repr

namespace TestStatus

/-- `status IN ('pending', 'running')`. -/
def inFlight : TestStatus → Bool
  | pending | running => true
  | passed | failed | error | skipped | timeout => false

/-- `status NOT IN ('pending', 'running')`. -/
def terminal (t : TestStatus) : Bool := !t.inFlight

@[simp] theorem terminal_passed : passed.terminal = true := rfl
@[simp] theorem terminal_skipped : skipped.terminal = true := rfl
@[simp] theorem terminal_error : error.terminal = true := rfl
@[simp] theorem terminal_pending : pending.terminal = false := rfl
@[simp] theorem terminal_running : running.terminal = false := rfl

theorem inFlight_eq_not_terminal (t : TestStatus) : t.inFlight = !t.terminal := by
  rw [terminal, Bool.not_not]

end TestStatus

/-- The columns of a row of `orchestrator.runs` that the closing of a run reads and
writes. `dispatchedCount` and `aiSession` are keys of its `metadata` object. -/
structure RunRow where
  status : RunStatus
  dispatchedCount : Option ℕ
  aiSession : Bool
  passRate : Option ℚ
  deriving DecidableEq, Repr

/-- The row a new run is inserted with. -/
def RunRow.queued (aiSession : Bool) : RunRow := ⟨.queued, none, aiSession, none⟩

end ReleaseValidation.Store
