import Mathlib.Algebra.Order.Round
import Mathlib.Data.Rat.Floor
import Mathlib.Data.List.Count
import ReleaseValidation.Store.Records

/-! # Closing a run over its result rows

The results consumer reads the dispatched count of the run and the statuses of its
result rows, decides whether tests are still outstanding, and otherwise stores the
pass rate and the final status. The sandbox manager applies its own count condition
to the rows of the sandbox. Rates are exact rationals here; the stored column keeps
two decimals.
-/
namespace ReleaseValidation.Orchestrator
open Store

/-- What the counting query of `TestResultConsumer._handle` selects. -/
structure Counts where
  dispatched : ℕ
  finished : ℕ
  inFlight : ℕ
  deriving DecidableEq, Repr

def counts (dispatchedCount : Option ℕ) (rows : List TestStatus) : Counts where
  dispatched := dispatchedCount.getD 0
  finished := rows.countP TestStatus.terminal
  inFlight := rows.countP TestStatus.inFlight

/-- The early return of `_handle`: count not written yet, or tests still outstanding. -/
def Counts.unfinished (c : Counts) : Bool :=
  c.dispatched == 0 || decide (0 < c.inFlight) || decide (c.finished < c.dispatched)

/-- What the statistics query of `TestResultConsumer._handle` selects. -/
structure Stats where
  passed : ℕ
  total : ℕ
  deriving DecidableEq, Repr

def stats (rows : List TestStatus) : Stats where
  passed := rows.countP (· == .passed)
  total := rows.length

def Stats.rate (s : Stats) : ℚ := if s.total = 0 then 0 else s.passed / s.total * 100

theorem Stats.rate_of_ne {s : Stats} (h : s.total ≠ 0) : s.rate = s.passed / s.total * 100 := if_neg h

/-- `PASS_THRESHOLD_COMPLETED` and `PASS_THRESHOLD_WARNING`. -/
structure Thresholds where
  completed : ℚ
  warning : ℚ
  deriving DecidableEq, Repr

def Thresholds.default : Thresholds := ⟨100, 80⟩

/-- `_final_status`. -/
def finalStatus (th : Thresholds) (rate : ℚ) : RunStatus :=
  if th.completed ≤ rate then .completed
  else if th.warning ≤ rate then .warning
  else .failed

/-- A value stored in a `NUMERIC(5,2)` column: rounded half away from zero. -/
def numeric52 (q : ℚ) : ℚ := (if 0 ≤ q then ⌊q * 100 + 1 / 2⌋ else ⌈q * 100 - 1 / 2⌉) / 100

/-- The guarded `UPDATE … WHERE id = :id AND status = 'running'`. -/
def closeRun (th : Thresholds) (rate : ℚ) (run : RunRow) : RunRow :=
  if run.status = .running then
    { run with status := finalStatus th rate, passRate := some (numeric52 rate) }
  else run

/-- What the two queries of one poll of `_wait_for_tests` select. -/
structure Poll where
  dispatched : ℕ
  inFlight : ℕ
  totalStarted : ℕ
  deriving DecidableEq, Repr

def poll (dispatched : ℕ) (rows : List TestStatus) : Poll where
  dispatched := dispatched
  inFlight := rows.countP TestStatus.inFlight
  totalStarted := rows.length

/-- `dispatched > 0 and total_started >= dispatched and in_flight == 0`. -/
def Poll.done (p : Poll) : Bool :=
  decide (0 < p.dispatched) && decide (p.dispatched ≤ p.totalStarted) && p.inFlight == 0

theorem finalStatus_terminal (th : Thresholds) (rate : ℚ) : (finalStatus th rate).terminal = true := by
  unfold finalStatus
  split
  · rfl
  · split <;> rfl

theorem counts_total (d : Option ℕ) (rows : List TestStatus) :
    (counts d rows).finished + (counts d rows).inFlight = rows.length := by
  simp only [counts]
  rw [List.length_eq_countP_add_countP TestStatus.terminal]
  congr 2
  funext t
  simp [TestStatus.inFlight_eq_not_terminal]

theorem unfinished_eq_false_iff (c : Counts) :
    c.unfinished = false ↔ 0 < c.dispatched ∧ c.inFlight = 0 ∧ c.dispatched ≤ c.finished := by
  simp only [Counts.unfinished, Bool.or_eq_false_iff, beq_eq_false_iff_ne, decide_eq_false_iff_not]
  omega

theorem counts_unfinished_eq_false_iff (d : Option ℕ) (rows : List TestStatus) :
    (counts d rows).unfinished = false ↔
      0 < d.getD 0 ∧ d.getD 0 ≤ rows.length ∧ ∀ t ∈ rows, t.terminal = true := by
  have htotal := counts_total d rows
  have hall : (counts d rows).inFlight = 0 ↔ ∀ t ∈ rows, t.terminal = true := by
    simp only [counts, List.countP_eq_zero, TestStatus.inFlight_eq_not_terminal]
    simp
  rw [unfinished_eq_false_iff, ← hall]
  change (0 < d.getD 0 ∧ _ ∧ d.getD 0 ≤ _) ↔ _
  omega

/-- The sandbox manager stops waiting exactly when the results consumer would close,
provided both count the same rows. -/
theorem poll_done_iff_counts (d : ℕ) (rows : List TestStatus) :
    (poll d rows).done = true ↔ (counts (some d) rows).unfinished = false := by
  have hall : (poll d rows).inFlight = 0 ↔ ∀ t ∈ rows, t.terminal = true := by
    simp only [poll, List.countP_eq_zero, TestStatus.inFlight_eq_not_terminal]
    simp
  rw [counts_unfinished_eq_false_iff, ← hall]
  simp only [Poll.done, Bool.and_eq_true, decide_eq_true_eq, beq_iff_eq, Option.getD_some, and_assoc]
  rfl

theorem closeRun_of_running {th : Thresholds} {rate : ℚ} {run : RunRow} (h : run.status = .running) :
    closeRun th rate run =
      { run with status := finalStatus th rate, passRate := some (numeric52 rate) } := if_pos h

theorem closeRun_of_not_running {th : Thresholds} {rate : ℚ} {run : RunRow} (h : run.status ≠ .running) :
    closeRun th rate run = run := if_neg h

@[simp] theorem closeRun_dispatchedCount (th : Thresholds) (rate : ℚ) (run : RunRow) :
    (closeRun th rate run).dispatchedCount = run.dispatchedCount := by
  unfold closeRun
  split <;> rfl

@[simp] theorem closeRun_aiSession (th : Thresholds) (rate : ℚ) (run : RunRow) :
    (closeRun th rate run).aiSession = run.aiSession := by
  unfold closeRun
  split <;> rfl

theorem closeRun_terminal {th : Thresholds} {rate : ℚ} {run : RunRow}
    (h : run.status = .running ∨ run.status.terminal = true) :
    (closeRun th rate run).status.terminal = true := by
  rcases h with h | h
  · rw [closeRun_of_running h]
    exact finalStatus_terminal th rate
  · have hne : run.status ≠ .running := by
      intro he
      rw [he] at h
      cases h
    rw [closeRun_of_not_running hne]
    exact h

example : numeric52 (2 / 3 * 100) = 6667 / 100 := by decide +kernel

end ReleaseValidation.Orchestrator
