import ReleaseValidation.TestRunner.CommandRows

/-! # Which commands are answered

An answer is one result row with a terminal status together with one result message
that agrees with it. A command whose run is cancelled is answered by a skipped result;
any other command needs a cached definition, overrides that apply, and results that
can be written as JSON.
-/
namespace ReleaseValidation.TestRunner.CommandTask
open Store Programs Programs.Program Tables

variable {env : Env} {msg : TestCommand} {w : World}

/-- The statements and publishes of the handling succeed; in particular the ids it may
insert are free. -/
structure Succeeds (env : Env) (msg : TestCommand) (w : World) : Prop where
  sites : ∀ site, site ≠ .runTest → env.fault site = none
  freshId : env.freshId ∉ w.results
  resultId : resultId env msg ∉ w.results

/-- Between the two worlds the command got one terminal row and one message that agrees with it. -/
def Answered (msg : TestCommand) (w w' : World) : Prop :=
  AddsOne (fun id row => row.runId = msg.runId ∧ row.definitionId = msg.definitionId ∧
    row.status.terminal = true ∧ ∃ m, w'.published = w.published ++ [m] ∧ m.resultId = id ∧
      m.runId = row.runId ∧ m.status = row.status) w.results w'.results

/-- The command's test is run to an outcome that can be written. -/
def Runs (env : Env) (msg : TestCommand) : Prop :=
  ∃ d outcome, definitionOf env msg = some d ∧ runExit env d = .returned outcome ∧ outcome.dumpable = true

theorem runExit_terminal {d : Definition} {outcome : Outcome} (h : runExit env d = .returned outcome) :
    outcome.status.terminal = true := by
  have hcrash : ∀ e, (if e.isException then (.returned (.crashed env.elapsedMs e) : Exit Err Outcome)
      else .raised e) = .returned outcome → outcome.status.terminal = true := by
    intro e he
    split at he
    · obtain rfl := Exit.returned.inj he
      rfl
    · cases he
  unfold runExit at h
  cases hf : env.fault .runTest with
  | none =>
    cases hr : runTest env.executors d with
    | error e => exact hcrash e (by simpa only [hf, hr] using h)
    | ok o =>
      simp only [hf, hr, Exit.returned.injEq] at h
      rw [← h]
      exact runTest_terminal hr
  | some f =>
    cases f with
    | stop => simp [hf] at h
    | before e => exact hcrash e (by simpa only [hf] using h)
    | after e =>
      cases hr : runTest env.executors d with
      | error e' => exact hcrash e' (by simpa only [hf, hr] using h)
      | ok o => exact hcrash e (by simpa only [hf, hr] using h)

theorem definitionOf_eq_some {d : Definition} (h : definitionOf env msg = some d) :
    ∃ cached, DefinitionLoader.get env.cache msg.definitionId = some cached ∧
      Overrides.override env.int cached msg.definitionParsedOverride msg.parameterOverrides = .ok d := by
  obtain ⟨cached, hget, hover⟩ := Option.bind_eq_some_iff.mp h
  refine ⟨cached, hget, ?_⟩
  cases ho : Overrides.override env.int cached msg.definitionParsedOverride msg.parameterOverrides with
  | error e => rw [ho] at hover; cases hover
  | ok d' => rw [ho] at hover; cases hover; rfl

/-! ### The messages -/

theorem insertResult_free {id : Uuid} (h : id ∉ w.results) (row : ResultRow) :
    World.insertResult id row w = (.returned (), { w with results := w.results.insert id row }) := if_neg h

theorem updateResult_published (id : Uuid) (outcome : Outcome) (w : World) :
    (World.updateResult id outcome w).published = w.published := by
  unfold World.updateResult
  cases w.results.lookup id <;> rfl

namespace Succeeds

theorem check (h : Succeeds env msg w) : isRunCancelled env w = (.returned env.cancelled, w) := by
  rw [isRunCancelled, h.sites .checkCancelled (by decide), swallow_apply]
  rfl

theorem skip_published (h : Succeeds env msg w) :
    (skip env msg w).2.published = w.published ++ [msg.message env.freshId .skipped] := by
  unfold skip publishResult
  rw [h.sites .insertSkipped (by decide), h.sites .publishSkipped (by decide), await_none, await_none,
    bind_returned (insertResult_free h.freshId _), write_apply]
  rfl

theorem runCommand_published (h : Succeeds env msg w) {d : Definition} {outcome : Outcome}
    (hrun : runExit env d = .returned outcome) (hdump : outcome.dumpable = true) :
    (runCommand env msg d w).2.published = w.published ++ [msg.message (CommandTask.resultId env msg) outcome] := by
  have hins := insertResult_free h.resultId (msg.row .running)
  have hout : runOutcome env d
      { w with results := w.results.insert (CommandTask.resultId env msg) (msg.row .running) } =
      (.returned outcome, { w with results := w.results.insert (CommandTask.resultId env msg) (msg.row .running) }) := by
    rw [runOutcome_apply, hrun]
  unfold runCommand settle announce publishResult dumpResults
  rw [h.sites .insertRunning (by decide), h.sites .updateResult (by decide),
    h.sites .publishLogBatch (by decide), h.sites .publishResult (by decide)]
  simp only [await_none]
  rw [bind_returned hins, bind_returned hout, if_pos hdump, bind_returned (pure_apply _ _),
    bind_returned (write_apply _ _), bind_returned (swallow_apply _ _ _ _), write_apply]
  simp only [World.publish, updateResult_published]

theorem handle_cancelled (h : Succeeds env msg w) (hc : env.cancelled = true) :
    handle env msg w = skip env msg w := by
  unfold handle
  rw [bind_returned h.check, if_pos hc]

theorem handle_live (h : Succeeds env msg w) (hc : env.cancelled = false) {d : Definition}
    (hd : definitionOf env msg = some d) : handle env msg w = runCommand env msg d w := by
  obtain ⟨cached, hget, hover⟩ := definitionOf_eq_some hd
  unfold handle
  rw [bind_returned h.check, hc, if_neg Bool.false_ne_true, h.sites .cacheLock (by decide), await_none,
    bind_returned (pure_apply _ w), hget]
  simp only [hover]
  rw [bind_returned (ofExcept_ok d w)]

/-! ### The row -/

theorem offer_cancelled (h : Succeeds env msg w) (hc : env.cancelled = true) :
    offer env msg = some (env.freshId, msg.row .skipped) := by
  simp [offer, answered, h.sites .checkCancelled (by decide), h.sites .insertSkipped (by decide), hc]

theorem offer_live (h : Succeeds env msg w) (hc : env.cancelled = false) :
    offer env msg = (definitionOf env msg).map fun d => (CommandTask.resultId env msg, leftRow env msg d) := by
  simp [offer, answered, h.sites .checkCancelled (by decide), h.sites .cacheLock (by decide),
    h.sites .insertRunning (by decide), hc]

theorem settles_iff (h : Succeeds env msg w) {d : Definition} {outcome : Outcome} :
    Settles env d outcome ↔ runExit env d = .returned outcome ∧ outcome.dumpable = true := by
  simp [Settles, h.sites .insertRunning (by decide), h.sites .updateResult (by decide)]

end Succeeds

theorem answered_of_offer {id : Uuid} {row : ResultRow} (hfree : id ∉ w.results)
    (hoffer : offer env msg = some (id, row)) (hrun : row.runId = msg.runId)
    (hdef : row.definitionId = msg.definitionId) (hterm : row.status.terminal = true) {m : ResultMessage}
    (hpub : (handle env msg w).2.published = w.published ++ [m]) (hm : m.resultId = id)
    (hmrun : m.runId = row.runId) (hstatus : m.status = row.status) :
    Answered msg w (handle env msg w).2 := by
  unfold Answered
  rw [handle_results, hoffer]
  have hfrees : ∀ x ∈ (some (id, row)).toList, x.1 ∉ w.results := by
    intro x hx
    obtain rfl := List.mem_singleton.mp hx
    exact hfree
  apply (addsOne_claimAll_iff hfrees).mpr
  refine ⟨(id, row), [], rfl, ⟨hrun, hdef, hterm, m, hpub, hm, hmrun, hstatus⟩, ?_⟩
  intro y hy
  cases hy

theorem offer_of_answered (h : Answered msg w (handle env msg w).2) (hfree : ∀ x ∈ offer env msg, x.1 ∉ w.results) :
    ∃ x, offer env msg = some x ∧ x.2.status.terminal = true := by
  unfold Answered at h
  rw [handle_results] at h
  have hfrees : ∀ x ∈ (offer env msg).toList, x.1 ∉ w.results := by
    intro x hx
    exact hfree x (Option.mem_toList.mp hx)
  obtain ⟨x, rest, hx, ⟨-, -, hterm, -⟩, -⟩ := (addsOne_claimAll_iff hfrees).mp h
  refine ⟨x, ?_, hterm⟩
  have hmem : x ∈ (offer env msg).toList := by rw [hx]; exact List.mem_cons_self
  exact Option.mem_toList.mp hmem

/-- When its statements succeed, the handling answers the command exactly when the run
is cancelled, or the test is run to an outcome that can be written. -/
theorem command_answered_iff (h : Succeeds env msg w) :
    Answered msg w (handle env msg w).2 ↔ env.cancelled = true ∨ Runs env msg := by
  cases hc : env.cancelled with
  | true =>
    have hpub : (handle env msg w).2.published = w.published ++ [msg.message env.freshId .skipped] := by
      rw [h.handle_cancelled hc, h.skip_published]
    have hans := answered_of_offer h.freshId (h.offer_cancelled hc) rfl rfl rfl hpub rfl rfl rfl
    simp [hans]
  | false =>
    simp only [Bool.false_eq_true, false_or]
    constructor
    · intro hans
      have hfree : ∀ x ∈ offer env msg, x.1 ∉ w.results := by
        intro x hx
        rw [h.offer_live hc] at hx
        obtain ⟨d, -, rfl⟩ := Option.map_eq_some_iff.mp hx
        exact h.resultId
      obtain ⟨x, hx, hterm⟩ := offer_of_answered hans hfree
      rw [h.offer_live hc] at hx
      obtain ⟨d, hd, rfl⟩ := Option.map_eq_some_iff.mp hx
      by_contra hno
      have hnot : ∀ outcome, ¬ Settles env d outcome := by
        intro outcome hset
        obtain ⟨hrun, hdump⟩ := h.settles_iff.mp hset
        exact hno ⟨d, outcome, hd, hrun, hdump⟩
      rw [leftRow_of_not_settles hnot] at hterm
      cases hterm
    · rintro ⟨d, outcome, hd, hrun, hdump⟩
      have hleft : leftRow env msg d = (msg.row .running).settle outcome :=
        leftRow_of_settles (h.settles_iff.mpr ⟨hrun, hdump⟩)
      have hoffer : offer env msg = some (resultId env msg, (msg.row .running).settle outcome) := by
        rw [h.offer_live hc, hd, Option.map_some, hleft]
      have hpub : (handle env msg w).2.published = w.published ++ [msg.message (resultId env msg) outcome] := by
        rw [h.handle_live hc hd, h.runCommand_published hrun hdump]
      exact answered_of_offer h.resultId hoffer rfl rfl (runExit_terminal hrun) hpub rfl rfl rfl

def graphqlTest : DefinitionRow where
  id := "def-1"
  slug := "graphql-ready"
  timeoutSeconds := 120
  definitionParsed := .obj [("assertions", .arr [.obj [("type", .str "graphql")]])]
  isActive := true

def passing : Executors where
  execute _ _ := .results [⟨.str "graphql", true, none, none, none⟩]
  str _ := "graphql"
  durationMs := 12

/-- A worker whose cache was loaded from the rows, and whose tests pass. -/
def workerEnv (rows : List DefinitionRow) (freshId : Uuid) (fault : Site → Option (Fault Err)) : Env where
  fault := fault
  cancelled := false
  cache := DefinitionLoader.reload rows
  freshId := freshId
  int _ := none
  executors := passing
  elapsedMs := 15

def bulkCommand : TestCommand := ⟨"run-1", "sbx-1", "def-1", 1, "graphql-ready", none, .null, .null⟩

def noResults : World := ⟨∅, []⟩

theorem workerEnv_succeeds (rows : List DefinitionRow) (freshId : Uuid) :
    Succeeds (workerEnv rows freshId fun _ => none) bulkCommand noResults :=
  ⟨fun _ _ => rfl, AList.notMem_empty _, AList.notMem_empty _⟩

theorem command_answered_passing :
    Answered bulkCommand noResults (handle (workerEnv [graphqlTest] "res-1" fun _ => none) bulkCommand noResults).2 := by
  apply (command_answered_iff (workerEnv_succeeds [graphqlTest] "res-1")).mpr
  exact .inr ⟨graphqlTest.toDefinition, ⟨.passed, 12, [⟨.str "graphql", true, none, none, none⟩], none⟩, rfl, rfl, rfl⟩

/-- The test was activated after the last reload of the cache. -/
theorem command_unanswered :
    handle (workerEnv [] "res-1" fun _ => none) bulkCommand noResults = (.returned (), noResults) ∧
    ¬ Answered bulkCommand noResults (handle (workerEnv [] "res-1" fun _ => none) bulkCommand noResults).2 := by
  have hrun : handle (workerEnv [] "res-1" fun _ => none) bulkCommand noResults = (.returned (), noResults) := rfl
  refine ⟨hrun, ?_⟩
  rw [hrun]
  exact not_addsOne_self _

end ReleaseValidation.TestRunner.CommandTask
