import ReleaseValidation.Lifecycle.System
import ReleaseValidation.TestRunner.Answers

/-! # The handling of a command, seen as stages of the run's life

The statements of one undisturbed handling are steps of the command's stage. The stage
it ends in has the status of the row the handling leaves, and it is an answered one
exactly when the command was answered.
-/
namespace ReleaseValidation.TestRunner.CommandTask
open Store Programs Tables Lifecycle Runs

/-- The test runner's statements on a command, while the run and the other rows stand still. -/
def stageStep (th : Orchestrator.Thresholds) (run : RunRow) (rows : List TestStatus) (x : Stage)
    (a : CommandAct) : Option Stage := (x.step th run rows a).map Prod.fst

variable {env : Env} {msg : TestCommand} {w : World} {th : Orchestrator.Thresholds} {run : RunRow}
  {rows : List TestStatus}

theorem stages_skipped (hrun : run.status = .cancelled) (cached : Bool) :
    exec (stageStep th run rows) .queued [.consume cached, .insertSkipped, .publishResult] =
      some (.answered ⟨.skipped, rfl⟩) := by
  simp [stageStep, Stage.step, hrun]

theorem stages_dropped (hrun : run.status ≠ .cancelled) :
    exec (stageStep th run rows) .queued [.consume false] = some .dropped := by
  simp [stageStep, Stage.step, hrun]

theorem stages_running (hrun : run.status ≠ .cancelled) :
    exec (stageStep th run rows) .queued [.consume true, .insertRunning] = some .running := by
  simp [stageStep, Stage.step, hrun]

theorem stages_settled (hrun : run.status ≠ .cancelled) (o : Lifecycle.Outcome) :
    exec (stageStep th run rows) .queued [.consume true, .insertRunning, .settle o, .publishResult] =
      some (.answered o) := by
  simp [stageStep, Stage.step, hrun]

theorem handle_stages (h : Succeeds env msg w) (hrun : env.cancelled = decide (run.status = .cancelled)) :
    ∃ acts x, exec (stageStep th run rows) .queued acts = some x ∧
      x.row = (offer env msg).map (fun offered => offered.2.status) ∧
      ((∃ o, x = .answered o) ↔ Answered msg w (handle env msg w).2) := by
  rw [command_answered_iff h]
  by_cases hc : run.status = .cancelled
  · have hcan : env.cancelled = true := by rw [hrun, decide_eq_true hc]
    refine ⟨_, _, stages_skipped hc true, ?_, ?_⟩
    · rw [h.offer_cancelled hcan]
      rfl
    · simp [hcan]
  · have hlive : env.cancelled = false := by rw [hrun, decide_eq_false hc]
    rw [h.offer_live hlive]
    simp only [hlive, Bool.false_eq_true, false_or]
    cases hd : definitionOf env msg with
    | none =>
      refine ⟨_, _, stages_dropped hc, rfl, ?_⟩
      simp [Runs, hd]
    | some d =>
      by_cases hruns : ∃ outcome, runExit env d = .returned outcome ∧ outcome.dumpable = true
      · obtain ⟨outcome, hexit, hdump⟩ := hruns
        refine ⟨_, _, stages_settled hc ⟨outcome.status, runExit_terminal hexit⟩, ?_, ?_⟩
        · rw [Option.map_some, Option.map_some, leftRow_of_settles (h.settles_iff.mpr ⟨hexit, hdump⟩)]
          rfl
        · have hyes : Runs env msg := ⟨d, outcome, hd, hexit, hdump⟩
          simp [hyes]
      · have hnot : ∀ outcome, ¬ Settles env d outcome := by
          intro outcome hset
          exact hruns ⟨outcome, h.settles_iff.mp hset⟩
        refine ⟨_, _, stages_running hc, ?_, ?_⟩
        · rw [Option.map_some, Option.map_some, leftRow_of_not_settles hnot]
          rfl
        · have hno : ¬ Runs env msg := by
            rintro ⟨d', outcome, hd', hexit, hdump⟩
            rw [hd] at hd'
            obtain rfl := Option.some.inj hd'
            exact hruns ⟨outcome, hexit, hdump⟩
          simp [hno]

end ReleaseValidation.TestRunner.CommandTask
