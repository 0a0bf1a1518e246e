import ReleaseValidation.TestRunner.CommandTask

/-! # What the handling of a command adds to the result rows

A delivery offers at most one row to the table, under a fresh id or under the id that
the command brings along. Which row that is, and with which status it is left, is
decided by the environment; whether it is accepted, by the table.
-/
namespace ReleaseValidation.TestRunner.CommandTask
open Store Programs Programs.Program Tables

variable (env : Env) (msg : TestCommand)

/-- The definition that the command runs, if it is cached and its overrides apply. -/
def definitionOf : Option Definition :=
  (DefinitionLoader.get env.cache msg.definitionId).bind fun d =>
    (Overrides.override env.int d msg.definitionParsedOverride msg.parameterOverrides).toOption

/-- How `runOutcome` ends. -/
def runExit (d : Definition) : Exit Err Outcome :=
  match env.fault .runTest, runTest env.executors d with
  | none, .ok outcome => .returned outcome
  | some .stop, _ => .stopped
  | none, .error e | some (.before e), _ | some (.after _), .error e | some (.after e), .ok _ =>
    if e.isException then .returned (.crashed env.elapsedMs e) else .raised e

/-- The check reads the run as cancelled, and the skipped row is inserted. -/
def Skips : Prop :=
  answered (env.fault .checkCancelled) env.cancelled false = .returned true ∧
    Effective (env.fault .insertSkipped)

/-- The command comes to run the definition, and the running row is inserted. -/
def Starts (d : Definition) : Prop :=
  answered (env.fault .checkCancelled) env.cancelled false = .returned false ∧
    env.fault .cacheLock = none ∧ definitionOf env msg = some d ∧ Effective (env.fault .insertRunning)

/-- A running row is updated with the outcome. -/
def Settles (d : Definition) (outcome : Outcome) : Prop :=
  env.fault .insertRunning = none ∧ runExit env d = .returned outcome ∧ outcome.dumpable = true ∧
    Effective (env.fault .updateResult)

instance : Decidable (Skips env) := inferInstanceAs (Decidable (_ ∧ _))

/-- The row that the running row of a delivery has become when the delivery ends. -/
def leftRow (d : Definition) : ResultRow :=
  match env.fault .insertRunning, runExit env d with
  | none, .returned outcome =>
    if outcome.dumpable = true ∧ Effective (env.fault .updateResult) then (msg.row .running).settle outcome
    else msg.row .running
  | _, _ => msg.row .running

/-- The row that a delivery offers to the table, as the delivery leaves it. -/
def offer : Option (Uuid × ResultRow) :=
  match answered (env.fault .checkCancelled) env.cancelled false with
  | .returned true =>
    if Effective (env.fault .insertSkipped) then some (env.freshId, msg.row .skipped) else none
  | .returned false =>
    if env.fault .cacheLock = none ∧ Effective (env.fault .insertRunning) then
      (definitionOf env msg).map fun d => (resultId env msg, leftRow env msg d)
    else none
  | _ => none

variable {env msg}

theorem leftRow_of_settles {d : Definition} {outcome : Outcome} (h : Settles env d outcome) :
    leftRow env msg d = (msg.row .running).settle outcome := by
  obtain ⟨hins, hrun, hdump, hup⟩ := h
  simp only [leftRow, hins, hrun, hdump, hup, and_self, ↓reduceIte]

theorem leftRow_of_not_settles {d : Definition} (h : ∀ outcome, ¬ Settles env d outcome) :
    leftRow env msg d = msg.row .running := by
  unfold leftRow
  cases hins : env.fault .insertRunning with
  | some f => rfl
  | none =>
    cases hrun : runExit env d with
    | raised e => rfl
    | stopped => rfl
    | returned outcome =>
      have hno : ¬ (outcome.dumpable = true ∧ Effective (env.fault .updateResult)) := by
        rintro ⟨hdump, hup⟩
        exact h outcome ⟨hins, hrun, hdump, hup⟩
      simp only [hno, ↓reduceIte]

/-! ### The parts of the handler -/

/-- The result rows are left alone. -/
abbrev keepsRows : Frame World := Frame.fixing World.results

theorem keeps_publishResult (site : Site) (id : Uuid) (outcome : Outcome) :
    Keeps keepsRows (publishResult env msg site id outcome) := (keeps_write fun _ => rfl).await _

theorem insertResult_results (id : Uuid) (row : ResultRow) (w : World) :
    (World.insertResult id row w).2.results = claim w.results (id, row) := by
  by_cases h : id ∈ w.results
  · rw [claim_of_mem h, World.insertResult, if_pos h]
  · rw [claim_of_notMem h, World.insertResult, if_neg h]

theorem insertResult_then {fault : Option (Fault Err)} {id : Uuid} {row : ResultRow} {rest : Unit → Task Unit}
    (hrest : ∀ a w, (rest a w).2.results = w.results) (w : World) :
    ((await fault (World.insertResult id row) >>= rest) w).2.results =
      if Effective fault then claim w.results (id, row) else w.results := by
  have hthen : ((await fault (World.insertResult id row) >>= rest) w).2.results =
      (await fault (World.insertResult id row) w).2.results := bind_rel (R := keepsRows) hrest w
  rw [hthen, await_state]
  split
  · exact insertResult_results id row w
  · rfl

theorem runOutcome_apply (env : Env) (d : Definition) (w : World) :
    runOutcome env d w = (runExit env d, w) := by
  unfold runOutcome runExit
  cases hf : env.fault .runTest with
  | none =>
    cases hr : runTest env.executors d with
    | ok outcome => rfl
    | error e => cases e <;> rfl
  | some f =>
    cases f with
    | before e => cases e <;> rfl
    | stop => rfl
    | after e =>
      cases hr : runTest env.executors d with
      | ok outcome => cases e <;> rfl
      | error e' => cases e' <;> rfl

theorem skip_results (w : World) :
    (skip env msg w).2.results =
      if Effective (env.fault .insertSkipped) then claim w.results (env.freshId, msg.row .skipped)
      else w.results :=
  insertResult_then (fun _ => keeps_publishResult _ _ _) w

theorem keeps_announce (env : Env) (msg : TestCommand) (outcome : Outcome) : Keeps keepsRows (announce env msg outcome) := by
  apply Keeps.bind
  · intro w
    rw [swallow_apply]
    rfl
  · intro _
    exact keeps_publishResult _ _ _

theorem updateResult_lookup {id : Uuid} {row : ResultRow} {w : World} (h : w.results.lookup id = some row)
    (outcome : Outcome) :
    (World.updateResult id outcome w).results = w.results.insert id (row.settle outcome) := by
  simp only [World.updateResult, h]

theorem settle_results {row : ResultRow} {w : World} (h : w.results.lookup (resultId env msg) = some row)
    (outcome : Outcome) :
    (settle env msg outcome w).2.results =
      if outcome.dumpable = true ∧ Effective (env.fault .updateResult) then
        w.results.insert (resultId env msg) (row.settle outcome)
      else w.results := by
  unfold settle dumpResults
  by_cases hdump : outcome.dumpable = true
  · rw [if_pos hdump, bind_returned (pure_apply () w)]
    have hthen := bind_rel (m := await (env.fault .updateResult)
      (write (World.updateResult (resultId env msg) outcome)))
      (fun _ => keeps_announce env msg outcome) w
    simp only [hdump, true_and]
    apply hthen.trans
    rw [await_state]
    split
    · exact updateResult_lookup h outcome
    · rfl
  · rw [if_neg hdump, bind_raised (raise_apply _ w)]
    simp [hdump]

theorem runCommand_not_effective {d : Definition} {w : World} (h : ¬ Effective (env.fault .insertRunning)) :
    (runCommand env msg d w).2 = w := by
  have hf : env.fault .insertRunning ≠ none := by
    intro hnone
    exact h (.inl hnone)
  unfold runCommand
  rw [await_bind_state hf, await_state, if_neg h]

theorem runCommand_results (d : Definition) (w : World) :
    (runCommand env msg d w).2.results =
      if Effective (env.fault .insertRunning) then claim w.results (resultId env msg, leftRow env msg d)
      else w.results := by
  by_cases heff : Effective (env.fault .insertRunning)
  · rw [if_pos heff]
    unfold runCommand
    by_cases hf : env.fault .insertRunning = none
    · rw [hf, await_none]
      by_cases hmem : resultId env msg ∈ w.results
      · have hins : World.insertResult (resultId env msg) (msg.row .running) w =
            (.raised (.exception "duplicate key value violates unique constraint"), w) := if_pos hmem
        rw [bind_raised hins, claim_of_mem hmem]
      · have hins : World.insertResult (resultId env msg) (msg.row .running) w =
            (.returned (), { w with results := w.results.insert (resultId env msg) (msg.row .running) }) :=
          if_neg hmem
        rw [bind_returned hins, claim_of_notMem hmem]
        have hrun := runOutcome_apply env d
          { w with results := w.results.insert (resultId env msg) (msg.row .running) }
        cases hexit : runExit env d with
        | raised e =>
          rw [hexit] at hrun
          rw [bind_raised hrun]
          simp only [leftRow, hf, hexit]
        | stopped =>
          rw [hexit] at hrun
          rw [bind_stopped hrun]
          simp only [leftRow, hf, hexit]
        | returned outcome =>
          rw [hexit] at hrun
          rw [bind_returned hrun, settle_results (AList.lookup_insert _)]
          simp only [leftRow, hf, hexit]
          split
          · rw [AList.insert_insert]
          · rfl
    · rw [await_bind_state hf, await_state, if_pos heff, insertResult_results]
      have hleft : leftRow env msg d = msg.row .running := by
        apply leftRow_of_not_settles
        rintro outcome ⟨hnone, -⟩
        exact hf hnone
      rw [hleft]
  · rw [if_neg heff, runCommand_not_effective heff]

theorem handle_results (w : World) :
    (handle env msg w).2.results = claimAll w.results (offer env msg).toList := by
  have hcheck : isRunCancelled env w =
      (answered (env.fault .checkCancelled) env.cancelled false, w) := swallow_apply _ _ _ w
  unfold handle offer
  cases ha : answered (env.fault .checkCancelled) env.cancelled false with
  | raised e =>
    rw [ha] at hcheck
    rw [bind_raised hcheck]
    rfl
  | stopped =>
    rw [ha] at hcheck
    rw [bind_stopped hcheck]
    rfl
  | returned cancelled =>
    rw [ha] at hcheck
    rw [bind_returned hcheck]
    cases cancelled with
    | true =>
      rw [if_pos rfl, skip_results]
      simp only
      split <;> rfl
    | false =>
      rw [if_neg Bool.false_ne_true]
      by_cases hlock : env.fault .cacheLock = none
      · rw [hlock, await_none, bind_returned (pure_apply _ w)]
        simp only [true_and, definitionOf]
        cases hget : DefinitionLoader.get env.cache msg.definitionId with
        | none => simp [claimAll]
        | some d =>
          simp only [Option.bind_some]
          cases hover : Overrides.override env.int d msg.definitionParsedOverride msg.parameterOverrides with
          | error e =>
            rw [bind_raised (ofExcept_error e w)]
            simp [Except.toOption, claimAll]
          | ok d' =>
            rw [bind_returned (ofExcept_ok d' w), runCommand_results]
            simp only [Except.toOption, Option.map_some]
            split <;> rfl
      · rw [await_bind_state hlock, await_pure_state]
        simp only [hlock, false_and, ↓reduceIte]
        rfl

theorem consume_results (w : World) :
    (consume env msg w).2.results = claimAll w.results (offer env msg).toList := by
  have hack : (consume env msg w).2 =
      (tryExcept (handle env msg) Err.isException (fun _ => pure ()) w).2 := by
    have hk : Keeps (Frame.fixing id) (await (env.fault .ack) (pure ()) : Task Unit) :=
      fun u => await_pure_state _ _ u
    exact bind_rel (fun _ => hk) w
  have htry : (tryExcept (handle env msg) Err.isException (fun _ => pure ()) w).2 = (handle env msg w).2 :=
    tryExcept_rel (R := Frame.fixing id) (fun _ => keeps_pure ()) w
  rw [hack, htry, handle_results]

end ReleaseValidation.TestRunner.CommandTask
