import ReleaseValidation.AiAgent.VerdictTrails

/-! # The live event of a verdict

When `record_test_verdict` has succeeded, the agent loop publishes a verdict event. The event is
built from the arguments of the call, while the tool may have written another verdict.
-/
namespace ReleaseValidation.AiAgent.Verdicts
open Programs Store Serials Runs
variable {ω : Type}

structure VerdictEvent where
  definitionSlug : Json
  verdict : Json
  reasoning : Json

/-- `tc["input"].get(key, "")`. -/
def argument (input : ToolInput) (key : String) : Json := (input.lookup key).getD (.str "")

/-- `v[:500]`, of a string as every recorded reasoning is. -/
def first500 : Json → Json
  | .str s => .str (String.ofList (s.toList.take 500))
  | v => v

/-- The verdict event of `_stream_turn` for a call that has been answered. -/
def verdictEvent (c : Call ω) : Answer → Option VerdictEvent
  | .recorded _ =>
    if c.toolName = "record_test_verdict" then
      some ⟨argument c.input "definition_slug", argument c.input "verdict", first500 (argument c.input "reasoning")⟩
    else none
  | .refused _ | .raised | .returned => none

section Events
variable (R : Reading ω)

/-- An event is published for the verdicts that are persisted, and tells their outcome. -/
def EventTells (s : State ω) (a : Act ω) (t : State ω) : Prop :=
  ∀ c db, a = .execute c db →
    ((∃ e, verdictEvent c (s.execute R c db).1 = some e) ↔ ∃ row, (s.execute R c db).1 = .recorded row) ∧
    ∀ e, verdictEvent c (s.execute R c db).1 = some e → ∃ row ∈ t.verdicts, (s.execute R c db).1 = .recorded row ∧
      row.sessionId = c.sessionId ∧ e.definitionSlug = .str row.definitionSlug ∧ e.verdict = .str row.verdict.name

/-- A verdict of passed or failed is written while no audited call of the session is unclaimed. -/
def Unsupported (s : State ω) (a : Act ω) : Prop :=
  ∃ c db sub, a = .execute c db ∧ c.toolName = "record_test_verdict" ∧ submission R c.input = .ok sub ∧
    db.pool = true ∧ db.committed = true ∧ sub.verdict.decisive = true ∧
    (claimTrail R s.invocations c.sessionId).steps = []

theorem require_ok {input : ToolInput} {key : String} {v : Json} (h : require input key = .ok v) :
    input.lookup key = some v := by
  unfold require at h
  split at h
  next v' hv =>
    cases h
    exact hv
  next => cases h

theorem nonBlank_ok {v : Json} {s : String} (h : nonBlank v = .ok (some s)) : v = .str s := by
  unfold nonBlank at h
  split at h
  next s' =>
    split at h
    next => cases h
    next =>
      cases h
      rfl
  next => split at h <;> cases h

theorem parse_name {v : Json} {verdict : Verdict} (h : Verdict.parse v = some verdict) : v = .str verdict.name := by
  unfold Verdict.parse at h
  split at h
  next s =>
    have hname := List.find?_some h
    exact congrArg Json.str (of_decide_eq_true hname).symm
  next => cases h

theorem name_injective {a b : Verdict} (h : a.name = b.name) : a = b := by
  cases a <;> cases b <;> first | rfl | exact absurd h (by decide)

/-- The arguments of a submission are strings, of which the verdict is one of the five. -/
theorem submission_arguments {input : ToolInput} {sub : Submission} (h : submission R input = .ok sub) :
    input.lookup "definition_slug" = some (.str sub.definitionSlug) ∧
      input.lookup "verdict" = some (.str sub.verdict.name) ∧ input.lookup "reasoning" = some (.str sub.reasoning) := by
  unfold submission at h
  obtain ⟨slug, hslug, h⟩ := except_bind_ok h
  obtain ⟨verdict, hverdict, h⟩ := except_bind_ok h
  obtain ⟨reasoning, hreasoning, h⟩ := except_bind_ok h
  cases hparse : Verdict.parse verdict with
  | none =>
    rw [hparse] at h
    cases h
  | some outcome =>
    rw [hparse] at h
    obtain ⟨slugText, hslugText, h⟩ := except_bind_ok h
    cases slugText with
    | none => cases h
    | some slugText =>
      obtain ⟨reasoningText, hreasoningText, h⟩ := except_bind_ok h
      cases reasoningText with
      | none => cases h
      | some reasoningText =>
        cases h
        refine ⟨?_, ?_, ?_⟩
        · rw [require_ok hslug, nonBlank_ok hslugText]
        · rw [require_ok hverdict, parse_name hparse]
        · rw [require_ok hreasoning, nonBlank_ok hreasoningText]

variable {R} {s t : State ω}

/-- A verdict is recorded for the arguments of a call that pass the checks, if the database takes it. -/
theorem execute_recorded {c : Call ω} {db : Database} {row : VerdictRow}
    (h : (s.execute R c db).1 = .recorded row) :
    c.toolName = "record_test_verdict" ∧ db.pool = true ∧ db.committed = true ∧
      ∃ sub, submission R c.input = .ok sub ∧ row = (s.recordVerdict R c.sessionId sub).1 ∧
        (s.execute R c db).2.verdicts = (s.recordVerdict R c.sessionId sub).2.verdicts := by
  unfold State.execute at h ⊢
  rw [recordInvocation_verdicts]
  unfold State.dispatch at h ⊢
  split at h
  next htool =>
    rw [if_pos htool]
    unfold State.recordTestVerdict at h ⊢
    cases hsub : submission R c.input with
    | error answer =>
      rw [hsub] at h
      cases h
      exact absurd hsub (submission_not_recorded R c.input row)
    | ok sub =>
      rw [hsub] at h
      dsimp only at h ⊢
      split at h
      next => cases h
      next hpool =>
        split at h
        next => cases h
        next hcommitted =>
          cases h
          rw [if_neg hpool, if_neg hcommitted]
          exact ⟨htool, Bool.eq_true_of_not_eq_false hpool, Bool.eq_true_of_not_eq_false hcommitted, sub, rfl, rfl, rfl⟩
  next => cases h

theorem execute_of_submission {c : Call ω} {db : Database} {sub : Submission}
    (htool : c.toolName = "record_test_verdict") (hsub : submission R c.input = .ok sub) (hpool : db.pool = true)
    (hcommitted : db.committed = true) :
    (s.execute R c db).1 = .recorded (s.recordVerdict R c.sessionId sub).1 := by
  unfold State.execute State.dispatch State.recordTestVerdict
  rw [if_pos htool, hsub]
  dsimp only
  rw [if_neg (by rw [hpool]; exact Bool.false_ne_true.symm), if_neg (by rw [hcommitted]; exact Bool.false_ne_true.symm)]

/-- An event is published if and only if a verdict has been recorded. -/
theorem event_iff_recorded (c : Call ω) (db : Database) :
    (∃ e, verdictEvent c (s.execute R c db).1 = some e) ↔ ∃ row, (s.execute R c db).1 = .recorded row := by
  constructor
  · rintro ⟨e, he⟩
    unfold verdictEvent at he
    split at he
    next row hrow => exact ⟨row, hrow⟩
    all_goals cases he
  · rintro ⟨row, hrow⟩
    rw [hrow]
    exact ⟨_, if_pos (execute_recorded hrow).1⟩

/-- What is written of a submission is the verdict that was submitted, unless it is downgraded. -/
theorem gate_eq_iff (sub : Submission) (trail : Trail ω) :
    sub.gate trail = sub.verdict ↔ ¬ (sub.verdict.decisive = true ∧ trail.steps = []) := by
  rw [← List.length_eq_zero_iff]
  unfold Submission.gate
  split
  next hdown =>
    refine iff_of_false (fun h => ?_) fun h => h hdown
    rw [← h] at hdown
    cases hdown.1
  next hkeep => exact iff_of_true rfl hkeep

theorem event_tells_iff (hs : Sound s) {a : Act ω} (h : step R s a = some t) :
    EventTells R s a t ↔ ¬ Unsupported R s a := by
  constructor
  · rintro htells ⟨c, db, sub, rfl, htool, hsub, hpool, hcommitted, hdecisive, hsteps⟩
    obtain ⟨hpublished, houtcome⟩ := htells c db rfl
    have hrecorded := execute_of_submission (s := s) htool hsub hpool hcommitted
    obtain ⟨e, he⟩ := hpublished.mpr ⟨_, hrecorded⟩
    obtain ⟨row, -, hrow, -, -, hverdict⟩ := houtcome e he
    rw [hrecorded] at he hrow
    cases hrow
    have hgate : sub.gate (claimTrail R s.invocations c.sessionId) = sub.verdict := by
      have hargument : e.verdict = .str sub.verdict.name := by
        cases Option.some.inj ((if_pos htool).symm.trans he)
        change (c.input.lookup "verdict").getD _ = _
        rw [(submission_arguments R hsub).2.1]
        rfl
      exact (name_injective (Json.str.inj (hargument.symm.trans hverdict))).symm
    exact (gate_eq_iff sub _).mp hgate ⟨hdecisive, hsteps⟩
  · rintro hsupported c db rfl
    refine ⟨event_iff_recorded c db, fun e he => ?_⟩
    obtain ⟨row, hrow⟩ := (event_iff_recorded c db).mp ⟨e, he⟩
    obtain ⟨htool, hpool, hcommitted, sub, hsub, rfl, hverdicts⟩ := execute_recorded hrow
    obtain ⟨hslug, hverdict, -⟩ := submission_arguments R hsub
    have hgate : sub.gate (claimTrail R s.invocations c.sessionId) = sub.verdict :=
      (gate_eq_iff sub _).mpr fun hdown =>
        hsupported ⟨c, db, sub, rfl, htool, hsub, hpool, hcommitted, hdown.1, hdown.2⟩
    have hw := upsert_written hs.keyed (row_key R c.sessionId sub (claimTrail R s.invocations c.sessionId))
    rw [hrow] at he
    cases Option.some.inj ((if_pos htool).symm.trans he)
    cases h
    refine ⟨_, by rw [hverdicts]; exact hw.mem, hrow, rfl, ?_, ?_⟩
    · change (c.input.lookup "definition_slug").getD _ = _
      rw [hslug]
      rfl
    · change (c.input.lookup "verdict").getD _ = .str (sub.gate _).name
      rw [hverdict, hgate]
      rfl

end Events

/-- The call of `verdictCall "echo" "passed"`. -/
def passedEcho : Call Unit :=
  ⟨0, "record_test_verdict",
    [("definition_slug", .str "echo"), ("verdict", .str "passed"), ("reasoning", .str "as expected")], ()⟩

end ReleaseValidation.AiAgent.Verdicts
