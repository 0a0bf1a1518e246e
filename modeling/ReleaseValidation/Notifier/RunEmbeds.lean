import ReleaseValidation.Notifier.Formatters
import ReleaseValidation.Orchestrator.RunClosure

/-! # From the closing of a run to its embed

The orchestrator publishes the figures of a closed run under the key `fields` of its
notification. The notifier looks for them at the top level of the message it receives,
where it finds none of them.
-/
namespace ReleaseValidation.Notifier
open Programs Store Orchestrator

/-- What the guarded update of a closing run returns. -/
structure ClosedRun where
  id : Uuid
  releaseTag : String
  triggeredBy : String
  triggeredByUser : Option String
  durationSeconds : Option ℤ
  deriving DecidableEq, Repr

structure PhaseStats where
  phase : String
  total : ℕ
  passed : ℕ
  failed : ℕ
  passRate : ℚ
  deriving DecidableEq, Repr

structure FailedTest where
  name : String
  status : String
  errorMessage : Option String
  deriving DecidableEq, Repr

def optional {α : Type} (f : α → Json) : Option α → Json
  | some a => f a
  | none => .null

def PhaseStats.json (p : PhaseStats) : Json :=
  .obj [("phase", .str p.phase), ("total", .int p.total), ("passed", .int p.passed), ("failed", .int p.failed),
    ("pass_rate", .float p.passRate)]

def FailedTest.json (t : FailedTest) : Json :=
  .obj [("name", .str t.name), ("status", .str t.status), ("error", .str (clip 200 (t.errorMessage.getD "")))]

/-- The keyword arguments of the notification of a closed run. -/
structure ClosureFields where
  passRate : ℚ
  releaseTag : String
  triggeredBy : String
  triggeredByUser : Option String
  durationSeconds : Option ℤ
  totalTests : ℕ
  passedTests : ℕ
  failedTests : ℕ
  phases : List PhaseStats
  topFailures : List FailedTest
  isSuccess : Bool
  isWarning : Bool
  isError : Bool
  deriving DecidableEq, Repr

def ClosureFields.json (f : ClosureFields) : List (String × Json) :=
  [("pass_rate", .float f.passRate), ("release_tag", .str f.releaseTag), ("triggered_by", .str f.triggeredBy),
    ("triggered_by_user", optional .str f.triggeredByUser), ("duration_seconds", optional .int f.durationSeconds),
    ("total_tests", .int f.totalTests), ("passed_tests", .int f.passedTests), ("failed_tests", .int f.failedTests),
    ("phases", .arr (f.phases.map PhaseStats.json)), ("top_failures", .arr (f.topFailures.map FailedTest.json)),
    ("is_success", .bool f.isSuccess), ("is_warning", .bool f.isWarning), ("is_error", .bool f.isError)]

def statusText : RunStatus → String
  | .queued => "queued"
  | .provisioning => "provisioning"
  | .running => "running"
  | .completed => "completed"
  | .failed => "failed"
  | .warning => "warning"
  | .cancelled => "cancelled"

structure Notification where
  runId : Uuid
  final : RunStatus
  fields : ClosureFields
  deriving DecidableEq, Repr

/-- The end of `TestResultConsumer._handle`: what it passes to `publish_notification` when it
closes the run `closing`, over the rows its queries select. -/
def closure (th : Thresholds) (dispatchedCount : Option ℕ) (rows : List TestStatus) (status : RunStatus)
    (closing : ClosedRun) (phases : List PhaseStats) (failRows : List FailedTest) : Option Notification :=
  if (counts dispatchedCount rows).unfinished then none
  else if status ≠ .running then none
  else
    let rate := (stats rows).rate
    let final := finalStatus th rate
    let failedTests := failRows.take 5
    some ⟨closing.id, final, {
      passRate := rate, releaseTag := closing.releaseTag, triggeredBy := closing.triggeredBy
      triggeredByUser := closing.triggeredByUser, durationSeconds := closing.durationSeconds
      totalTests := (stats rows).total, passedTests := (stats rows).passed, failedTests := failedTests.length
      phases := phases, topFailures := failedTests
      isSuccess := final == .completed, isWarning := final == .warning, isError := final == .failed }⟩

/-- The message body of `publish_notification`. -/
def publishNotification (eventId ts eventType title : String) (runId : Json) (fields : List (String × Json)) : Json :=
  .obj [("event_id", .str eventId), ("run_id", runId), ("service", .str "orchestrator"), ("ts", .str ts),
    ("event_type", .str eventType), ("title", .str title), ("fields", .obj fields)]

def Notification.message (eventId ts : String) (n : Notification) : Json :=
  publishNotification eventId ts ("run." ++ statusText n.final) ("Run " ++ statusText n.final) (.str n.runId)
    n.fields.json

abbrev Formatter := Json → Except Err (List Embed)

/-- `_fmt_run_completed`. -/
def fmtRunCompleted (py : Interpreter) (now : String) : Formatter := fun p => do
  let run ← p.get "run" p
  let _report ← p.get "report" .null
  formatRunCompleted py now run

/-- `FORMATTERS.get(event_type)`, with the formatters of the messages that are not about runs. -/
def formatters (py : Interpreter) (now : String) (others : String → Option Formatter) : Json → Except Err (Option Formatter)
  | .str eventType =>
    if eventType = "run.completed" ∨ eventType = "run.warning" then .ok (some (fmtRunCompleted py now))
    else if eventType = "run.failed" then .ok (some (formatRunFailed py now))
    else .ok (others eventType)
  | .arr _ => .error (.exception "unhashable type: 'list'")
  | .obj _ => .error (.exception "unhashable type: 'dict'")
  | _ => .ok none

/-- `handle_discord_message`: the embeds it sends, if any. A formatter error is logged. -/
def handleDiscordMessage (py : Interpreter) (now : String) (others : String → Option Formatter) (body : Json) :
    Except Err (Option (List Embed)) := do
  let eventType ← body.get "event_type" (.str "unknown")
  let _runId ← body.get "run_id" .null
  let payload ← body.get "payload" body
  match ← formatters py now others eventType with
  | none => return none
  | some formatter =>
    match formatter payload with
    | .ok embeds => return some embeds
    | .error _ => return none

/-- The embed shows the release, the pass rate and the counts of the closed run. -/
structure Shows (e : Embed) (f : ClosureFields) : Prop where
  release : e.field? "Release" = some (.str ("`" ++ f.releaseTag ++ "`"))
  passRate : ∃ rest, e.description = rateLine f.passRate ++ rest
  passed : e.field? "✅ Passed" = some (.str (toString f.passedTests))
  failed : e.field? "❌ Failed" = some (.str (toString f.failedTests))
  total : e.field? "Total" = some (.str (toString f.totalTests))

section Received
variable (py : Interpreter) (now : String) (others : String → Option Formatter)
variable (eventId ts title : String) (runId : Uuid)

/-- Whatever a message says under `fields`, the embed of a completed run shows the defaults. -/
theorem completed_shows_defaults {eventType : String} (h : eventType = "run.completed" ∨ eventType = "run.warning")
    (fields : List (String × Json)) :
    ∃ e, handleDiscordMessage py now others
        (publishNotification eventId ts eventType title (.str runId) fields) = .ok (some [e]) ∧
      e.field? "Release" = some (.str "`—`") ∧ e.description = rateLine 0 ∧
      e.field? "✅ Passed" = some (.str "0") ∧ e.field? "❌ Failed" = some (.str "0") ∧
      e.field? "Total" = some (.str "0") := by
  rcases h with rfl | rfl
  · exact ⟨_, rfl, rfl, String.append_empty, rfl, rfl, rfl⟩
  · exact ⟨_, rfl, rfl, String.append_empty, rfl, rfl, rfl⟩

/-- The embed of a failed run shows no pass rate and no counts, and a default for the release. -/
theorem failed_shows_no_counts (f : ClosureFields) :
    ∃ e, handleDiscordMessage py now others
        (publishNotification eventId ts "run.failed" title (.str runId) f.json) = .ok (some [e]) ∧
      e.field? "Release" = some (.str "`—`") ∧ e.field? "✅ Passed" = none ∧ e.field? "❌ Failed" = none ∧
      e.field? "Total" = none :=
  ⟨_, rfl, rfl, rfl, rfl, rfl⟩

end Received

theorem toString_ne_zero {n : ℕ} (h : n ≠ 0) : toString n ≠ "0" := by
  intro heq
  have hlen : n.repr.length = 1 := congrArg String.length heq
  have hlt : n < 10 := by
    have hle := (Nat.length_repr_le_iff (n := n) (k := 1) (by decide)).mp hlen.le
    simpa using hle
  have hdigits : ∀ m < 10, m ≠ 0 → toString m ≠ "0" := by decide
  exact hdigits n hlt h heq

/-- A run closes over the result rows of at least one dispatched test. -/
theorem closure_total {th : Thresholds} {d : Option ℕ} {rows : List TestStatus} {status : RunStatus}
    {closing : ClosedRun} {phases : List PhaseStats} {failRows : List FailedTest} {n : Notification}
    (h : closure th d rows status closing phases failRows = some n) :
    n.fields.totalTests ≠ 0 ∧ (n.final = .completed ∨ n.final = .warning ∨ n.final = .failed) := by
  unfold closure at h
  split at h
  next => cases h
  next hfinished =>
    split at h
    next => cases h
    next =>
      cases Option.some.inj h
      have hrows := (counts_unfinished_eq_false_iff d rows).mp (Bool.eq_false_of_not_eq_true hfinished)
      refine ⟨?_, ?_⟩
      · change rows.length ≠ 0
        omega
      · change finalStatus _ _ = _ ∨ finalStatus _ _ = _ ∨ finalStatus _ _ = _
        unfold finalStatus
        split
        next => exact Or.inl rfl
        next =>
          split
          next => exact Or.inr (Or.inl rfl)
          next => exact Or.inr (Or.inr rfl)

/-- The notifier builds an embed for every closed run, and none shows the figures of its run. -/
theorem closure_embed_never_shows (py : Interpreter) (now : String) (others : String → Option Formatter)
    (eventId ts : String) {th : Thresholds} {d : Option ℕ} {rows : List TestStatus} {status : RunStatus}
    {closing : ClosedRun} {phases : List PhaseStats} {failRows : List FailedTest} {n : Notification}
    (h : closure th d rows status closing phases failRows = some n) :
    ∃ e, handleDiscordMessage py now others (n.message eventId ts) = .ok (some [e]) ∧ ¬ Shows e n.fields := by
  obtain ⟨htotal, hfinal⟩ := closure_total h
  obtain ⟨runId, final, fields⟩ := n
  have hshown : ∀ e : Embed, e.field? "Total" = some (.str "0") → ¬ Shows e fields := by
    intro e he hshows
    have heq := Option.some.inj (he.symm.trans hshows.total)
    exact toString_ne_zero htotal (Json.str.inj heq).symm
  rcases hfinal with rfl | rfl | rfl
  · obtain ⟨e, he, -, -, -, -, hzero⟩ :=
      completed_shows_defaults py now others eventId ts "Run completed" runId (Or.inl rfl) fields.json
    exact ⟨e, he, hshown e hzero⟩
  · obtain ⟨e, he, -, -, -, -, hzero⟩ :=
      completed_shows_defaults py now others eventId ts "Run warning" runId (Or.inr rfl) fields.json
    exact ⟨e, he, hshown e hzero⟩
  · obtain ⟨e, he, -, -, -, hnone⟩ := failed_shows_no_counts py now others eventId ts "Run failed" runId fields
    refine ⟨e, he, fun hshows => ?_⟩
    cases hnone.symm.trans hshows.total

/-- A run of two tests that both passed, started by a release. -/
def passedRun : ClosedRun := ⟨"6f1c0d6e-8d57-4f0e-9a30-51f3a9b6c001", "v2.0.0-alpha.12", "github_release", none, some 95⟩

def passedPhases : List PhaseStats := [⟨"Phase 1: Installation", 2, 2, 0, 100⟩]

def passedNotification : Notification :=
  ⟨passedRun.id, .completed, ⟨100, "v2.0.0-alpha.12", "github_release", none, some 95, 2, 2, 0, passedPhases, [],
    true, false, false⟩⟩

theorem closure_passedRun :
    closure .default (some 2) [.passed, .passed] .running passedRun passedPhases [] = some passedNotification := by
  decide +kernel

/-- The interpreter is asked for no text but that of strings and whole numbers here. -/
def plainInterpreter : Interpreter := ⟨Json.typeName, fun s => .error (.exception s)⟩

theorem closure_embed_never_shows_passedRun :
    ∃ e, handleDiscordMessage plainInterpreter "t" (fun _ => none) (passedNotification.message "e" "t") =
      .ok (some [e]) ∧ ¬ Shows e passedNotification.fields :=
  closure_embed_never_shows plainInterpreter "t" (fun _ => none) "e" "t" closure_passedRun

/-- The closed run has a release, a full pass rate and two passed tests, and its embed
shows no release, no rate and no tests. -/
theorem passed_run_shown_empty :
    closure .default (some 2) [.passed, .passed] .running passedRun passedPhases [] = some passedNotification ∧
      ∃ e, handleDiscordMessage plainInterpreter "t" (fun _ => none) (passedNotification.message "e" "t") =
          .ok (some [e]) ∧
        e.field? "Release" = some (.str "`—`") ∧ e.field? "✅ Passed" = some (.str "0") ∧
        e.field? "Total" = some (.str "0") ∧ ¬ Shows e passedNotification.fields := by
  obtain ⟨e, he, hrelease, -, hpassed, -, htotal⟩ :=
    completed_shows_defaults plainInterpreter "t" (fun _ => none) "e" "t" "Run completed" passedRun.id (Or.inl rfl)
      passedNotification.fields.json
  refine ⟨closure_passedRun, e, he, hrelease, hpassed, htotal, fun hshows => ?_⟩
  have heq : Json.str "0" = Json.str (toString 2) := Option.some.inj (htotal.symm.trans hshows.total)
  exact absurd (Json.str.inj heq) (by decide)

end ReleaseValidation.Notifier
