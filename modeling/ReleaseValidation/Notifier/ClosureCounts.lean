import Mathlib.Algebra.BigOperators.Group.List.Lemmas
import ReleaseValidation.Notifier.RunEmbeds

/-! # The counts in the notification of a closed run

The total, the passed tests and the pass rate come from one query over the result rows, the phases
and the failing tests from two others that join the definitions. The count of the failed tests is
that of the failing tests which the last query selects, and it selects five at most.
-/
namespace ReleaseValidation.Notifier
open Store Orchestrator

/-- The columns of a row of `tests.results` that the queries of the closure read. -/
structure ResultRow where
  definitionId : Uuid
  status : TestStatus
  errorMessage : Option String
  completedAt : Option ℕ
  deriving DecidableEq, Repr

/-- The columns of a row of `tests.definitions` that they read. -/
structure DefinitionRow where
  name : String
  phase : Option String
  deriving DecidableEq, Repr

def testStatusText : TestStatus → String
  | .pending => "pending"
  | .running => "running"
  | .passed => "passed"
  | .failed => "failed"
  | .error => "error"
  | .skipped => "skipped"
  | .timeout => "timeout"

/-- `status NOT IN ('passed', 'running', 'pending')`. -/
def failing (t : TestStatus) : Bool := t != .passed && t.terminal

/-- The order of a nullable column, `NULLS LAST`. -/
def nullsLast {α : Type} (le : α → α → Bool) : Option α → Option α → Bool
  | _, none => true
  | none, some _ => false
  | some a, some b => le a b

section Queries
variable (definitions : Uuid → Option DefinitionRow) (collate : String → String → Bool)

/-- `tests.results JOIN tests.definitions`, for the results of one run. -/
def joined (rows : List ResultRow) : List (ResultRow × DefinitionRow) :=
  rows.filterMap fun row => (definitions row.definitionId).map fun d => (row, d)

/-- The group of a phase, with its rate as the notification shows it. -/
def phaseGroup (phase : Option String) (group : List (ResultRow × DefinitionRow)) : PhaseStats :=
  let passed := group.countP fun r => r.1.status == .passed
  let rate : ℚ := if group.length = 0 then 0 else passed / group.length * 100
  { phase := phase.getD "Uncategorised"
    total := group.length
    passed := passed
    failed := group.countP fun r => failing r.1.status
    passRate := roundHalfEven (rate * 10) / 10 }

/-- `GROUP BY d.phase ORDER BY d.phase NULLS LAST`. -/
def phaseRows (rows : List ResultRow) : List PhaseStats :=
  let phases := ((joined definitions rows).map fun r => r.2.phase).dedup
  (phases.insertionSort fun a b => nullsLast collate a b = true).map fun phase =>
    phaseGroup phase ((joined definitions rows).filter fun r => decide (r.2.phase = phase))

/-- `ORDER BY res.completed_at`, of which the closure takes five. -/
def failRows (rows : List ResultRow) : List FailedTest :=
  (((joined definitions rows).filter fun r => failing r.1.status).insertionSort fun r q =>
    nullsLast (fun a b => decide (a ≤ b)) r.1.completedAt q.1.completedAt = true).map fun r =>
      ⟨r.2.name, testStatusText r.1.status, r.1.errorMessage⟩

/-- The notification of a run over its result rows. -/
def closureNotification (th : Thresholds) (dispatchedCount : Option ℕ) (rows : List ResultRow) (status : RunStatus)
    (closing : ClosedRun) : Option Notification :=
  closure th dispatchedCount (rows.map ResultRow.status) status closing (phaseRows definitions collate rows)
    (failRows definitions rows)

end Queries

/-- The counts of the notification are those of the rows, and add up. -/
structure CountsAgree (rows : List ResultRow) (f : ClosureFields) : Prop where
  passed : f.passedTests = rows.countP fun r => r.status == .passed
  failed : f.failedTests = rows.countP fun r => failing r.status
  total : f.passedTests + f.failedTests = f.totalTests
  rate : f.passRate = 100 * f.passedTests / f.totalTests
  phases : (f.phases.map PhaseStats.total).sum = f.totalTests

section Counts
variable {definitions : Uuid → Option DefinitionRow} {collate : String → String → Bool} {rows : List ResultRow}

/-- With all definitions there, the join keeps each result once. -/
theorem joined_fst (hdefs : ∀ r ∈ rows, (definitions r.definitionId).isSome = true) :
    (joined definitions rows).map Prod.fst = rows := by
  induction rows with
  | nil => rfl
  | cons row rows ih =>
    obtain ⟨hrow, hrows⟩ := List.forall_mem_cons.mp hdefs
    obtain ⟨d, hd⟩ := Option.isSome_iff_exists.mp hrow
    unfold joined at ih ⊢
    rw [List.filterMap_cons, hd]
    exact congrArg (row :: ·) (ih hrows)

theorem joined_countP (hdefs : ∀ r ∈ rows, (definitions r.definitionId).isSome = true) (p : ResultRow → Bool) :
    (joined definitions rows).countP (fun r => p r.1) = rows.countP p := by
  have hmap := congrArg (List.countP p) (joined_fst hdefs)
  rw [List.countP_map] at hmap
  exact hmap

/-- The failing tests that are selected, before the limit, are the failing rows. -/
theorem failRows_length (hdefs : ∀ r ∈ rows, (definitions r.definitionId).isSome = true) :
    (failRows definitions rows).length = rows.countP fun r => failing r.status := by
  rw [failRows, List.length_map, List.length_insertionSort, ← List.countP_eq_length_filter]
  exact joined_countP hdefs fun r => failing r.status

/-- Each element of a list belongs to one group of equal elements. -/
theorem sum_groups {β : Type} [DecidableEq β] (l : List β) :
    (l.dedup.map fun b => l.countP fun c => decide (c = b)).sum = l.length :=
  List.sum_map_count_dedup_eq_length l

/-- The groups share the joined rows among them. -/
theorem phaseRows_total (hdefs : ∀ r ∈ rows, (definitions r.definitionId).isSome = true) :
    ((phaseRows definitions collate rows).map PhaseStats.total).sum = rows.length := by
  have hlength : (joined definitions rows).length = rows.length := by
    rw [← List.length_map (f := Prod.fst), joined_fst hdefs]
  let phases := (joined definitions rows).map fun r => r.2.phase
  have hgroup : ∀ phase, (phaseGroup phase ((joined definitions rows).filter fun r => decide (r.2.phase = phase))).total =
      phases.countP fun p => decide (p = phase) := by
    intro phase
    change List.length _ = _
    rw [← List.countP_eq_length_filter, List.countP_map]
    rfl
  have hperm := List.perm_insertionSort (fun a b => nullsLast collate a b = true) phases.dedup
  rw [phaseRows, List.map_map]
  calc _ = ((phases.dedup.insertionSort fun a b => nullsLast collate a b = true).map
          fun phase => phases.countP fun p => decide (p = phase)).sum :=
        congrArg List.sum (List.map_congr_left fun phase _ => hgroup phase)
    _ = (phases.dedup.map fun phase => phases.countP fun p => decide (p = phase)).sum := (hperm.map _).sum_eq
    _ = rows.length := by rw [sum_groups, List.length_map, hlength]

/-- A run closes over terminal rows: those that passed and those that failed. -/
theorem passed_add_failing (h : ∀ r ∈ rows, r.status.terminal = true) :
    (rows.countP fun r => r.status == .passed) + (rows.countP fun r => failing r.status) = rows.length := by
  have hnot : (rows.countP fun r => failing r.status) = rows.countP fun r => ¬ (r.status == .passed) = true := by
    refine List.countP_congr fun r hr => ?_
    rw [failing, h r hr, Bool.and_true, decide_eq_true_iff, bne_iff_ne, beq_iff_eq]
  rw [hnot, ← List.length_eq_countP_add_countP]

end Counts

def installation : DefinitionRow := ⟨"CLI installs", some "Phase 1: Installation"⟩

def resultRow (status : TestStatus) : ResultRow := ⟨"d1", status, none, none⟩

def byName (a b : String) : Bool := decide (a ≤ b)

end ReleaseValidation.Notifier
