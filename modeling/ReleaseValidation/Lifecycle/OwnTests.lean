import Mathlib.Tactic.LinearCombination
import Mathlib.Tactic.Positivity
import ReleaseValidation.Lifecycle.Settlement

/-! # Closing a run over its own tests

Both completion checks count all result rows of the run, also those of commands that
an agent has triggered. A count lets the run be closed too early when terminal rows
of triggered commands stand in for missing rows of dispatched ones, and the stored
pass rate is the rate of the dispatched commands when the triggered rows passed in
the same proportion.
-/
namespace ReleaseValidation.Lifecycle
open Store Orchestrator Runs

variable {cfg : Config} {s t : State}

namespace State

/-- Dispatched commands whose result row satisfies `p`. -/
def ownCount (p : Option TestStatus → Bool) (s : State) : ℕ :=
  s.commands.countP fun c => c.origin == .dispatched && p c.stage.row

/-- Triggered commands whose result row satisfies `p`. -/
def foreignCount (p : Option TestStatus → Bool) (s : State) : ℕ :=
  s.commands.countP fun c => c.origin == .triggered && p c.stage.row

/-- Dispatched commands without a terminal row. -/
def missing (s : State) : ℕ := s.ownCount fun r => !r.any TestStatus.terminal

/-- The passed fraction of the dispatched commands, in percent. -/
def ownRate (s : State) : ℚ := (Stats.mk (s.ownCount (·.any (· == .passed))) s.published).rate

end State

/-- No row is in flight, and terminal rows of triggered commands make up for the missing
ones in a comparison with `dispatched`. -/
def Misled (s : State) (dispatched : ℕ) : Prop :=
  0 < dispatched ∧ s.rows.countP TestStatus.inFlight = 0 ∧ 0 < s.missing ∧
    s.missing ≤ s.foreignCount (·.any TestStatus.terminal)

instance (s : State) (d : ℕ) : Decidable (Misled s d) := inferInstanceAs (Decidable (_ ∧ _ ∧ _ ∧ _))

/-- Every count read on a running run is not misled by triggered rows, and whenever the
statistics are read on a running run the triggered rows passed in the proportion of the
dispatched ones. -/
def OwnReads (s : State) (a : Act) (_ : State) : Prop :=
  match a with
  | .command _ .readCounts => s.run.status = .running → ¬ Misled s (s.run.dispatchedCount.getD 0)
  | .command _ .readStats => s.run.status = .running →
      s.foreignCount (·.any (· == .passed)) * s.published =
        s.ownCount (·.any (· == .passed)) * s.foreignCount (·.isSome)
  | .sandbox .pollCounts =>
      match s.sandbox with
      | .counting _ d => ¬ Misled s d
      | _ => True
  | _ => True

instance (s : State) (a : Act) (t : State) : Decidable (OwnReads s a t) := by
  unfold OwnReads
  split
  · infer_instance
  · infer_instance
  · split <;> infer_instance
  · infer_instance

/-- All commands of the dispatch are published and have a terminal row. -/
def OwnFinished (cfg : Config) (s : State) : Prop :=
  s.published = cfg.toDispatch s.run ∧ s.missing = 0

/-- The run is closed, and the wait for its tests ends as done, over its own tests. -/
def ClosesOwn (cfg : Config) (s : State) (a : Act) (t : State) : Prop :=
  match a with
  | .command _ .close => s.run.status = .running →
      OwnFinished cfg s ∧ t.run.passRate = some (numeric52 s.ownRate)
  | .sandbox .pollCounts => t.sandbox = .tearingDown → OwnFinished cfg s
  | _ => True

instance (cfg : Config) (s : State) (a : Act) (t : State) : Decidable (ClosesOwn cfg s a t) := by
  unfold ClosesOwn OwnFinished
  split <;> infer_instance

/-! ### Counting rows by the origin of their commands -/

theorem published_eq (s : State) : s.published = s.ownCount fun _ => true := by
  rw [State.published, List.count_eq_countP, List.countP_map, State.ownCount]
  congr 1
  funext c
  simp

theorem rows_countP (q : TestStatus → Bool) (s : State) :
    s.rows.countP q = s.ownCount (·.any q) + s.foreignCount (·.any q) := by
  rw [State.rows, State.ownCount, State.foreignCount]
  induction s.commands with
  | nil => rfl
  | cons c l ih =>
    rw [List.countP_cons, List.countP_cons, List.filterMap_cons]
    cases hr : c.stage.row with
    | none =>
      simp only [Option.any_none, Bool.and_false, Bool.false_eq_true, ↓reduceIte]
      omega
    | some st =>
      rw [List.countP_cons, ih, Option.any_some]
      cases ho : c.origin <;> by_cases hq : q st = true <;> simp [hq] <;> omega

theorem rows_length (s : State) : s.rows.length = s.ownCount (·.isSome) + s.foreignCount (·.isSome) := by
  have h := rows_countP (fun _ => true) s
  rw [List.countP_true] at h
  rw [h]
  congr 2

theorem published_split (s : State) (p : Option TestStatus → Bool) :
    s.published = s.ownCount p + s.ownCount fun r => !p r := by
  rw [published_eq, State.ownCount, State.ownCount, State.ownCount]
  induction s.commands with
  | nil => rfl
  | cons c l ih =>
    rw [List.countP_cons, List.countP_cons, List.countP_cons, ih]
    cases ho : c.origin <;> by_cases hp : p c.stage.row = true <;> simp [hp] <;> omega

/-- Counts that let the run be closed while a dispatched command has no terminal row are
exactly the misled ones. -/
theorem passing_missing_iff {n : ℕ} (hp : s.published = n) :
    ((counts (some n) s.rows).unfinished = false ∧ 0 < s.missing) ↔ Misled s n := by
  have hsplit := published_split s (·.any TestStatus.terminal)
  have hrows := rows_countP TestStatus.terminal s
  have hmiss : s.missing = s.ownCount fun r => !r.any TestStatus.terminal := rfl
  rw [unfinished_eq_false_iff]
  simp only [counts, Option.getD_some, Misled]
  omega

theorem missing_eq_zero_iff (s : State) : s.missing = 0 ↔
    ∀ c ∈ s.commands, c.origin = .dispatched → ∃ st, c.stage.row = some st ∧ st.terminal = true := by
  rw [State.missing, State.ownCount, List.countP_eq_zero]
  refine forall_congr' fun c => forall_congr' fun _ => ?_
  simp only [Bool.and_eq_true, beq_iff_eq, Bool.not_eq_true', not_and, Bool.not_eq_false,
    Option.any_eq_true]

theorem ownCount_isSome (hm : s.missing = 0) : s.ownCount (·.isSome) = s.published := by
  rw [published_eq, State.ownCount, State.ownCount]
  refine List.countP_congr fun c hc => ?_
  by_cases ho : c.origin = .dispatched
  · obtain ⟨st, hst, -⟩ := (missing_eq_zero_iff s).mp hm c hc ho
    rw [ho, hst]
    rfl
  · simp [ho]

/-- With all of its own tests finished, and the triggered rows in proportion, the overall
rate is the rate of the dispatched commands. -/
theorem rate_eq_ownRate (hm : s.missing = 0) (hp : 0 < s.published)
    (hprop : s.foreignCount (·.any (· == .passed)) * s.published =
      s.ownCount (·.any (· == .passed)) * s.foreignCount (·.isSome)) :
    (stats s.rows).rate = s.ownRate := by
  have hpassed := rows_countP (· == .passed) s
  have hlen := rows_length s
  rw [ownCount_isSome hm] at hlen
  have hprop' : (s.foreignCount (·.any (· == .passed)) : ℚ) * s.published =
      s.ownCount (·.any (· == .passed)) * s.foreignCount (·.isSome) := by exact_mod_cast hprop
  have hN : (0 : ℚ) < s.published := by exact_mod_cast hp
  have hF : (0 : ℚ) ≤ s.foreignCount (·.isSome) := Nat.cast_nonneg _
  have htotal : s.rows.length ≠ 0 := by omega
  rw [State.ownRate, Stats.rate_of_ne (s := stats s.rows) htotal, Stats.rate_of_ne hp.ne']
  change (s.rows.countP (· == .passed) : ℚ) / s.rows.length * 100 = _
  rw [hpassed, hlen]
  push_cast
  rw [div_mul_eq_mul_div, div_mul_eq_mul_div, div_eq_div_iff (by positivity) (by positivity)]
  linear_combination 100 * hprop'

/-- Once the count is written and no own test is missing, no step changes what is counted
about the dispatched commands. -/
theorem step_ownCount {a : Act} (h : step cfg s a = some t) (hs : Wellformed cfg s)
    (hw : s.run.dispatchedCount.isSome = true) (hm : s.missing = 0) (p : Option TestStatus → Bool) :
    t.ownCount p = s.ownCount p := by
  cases a with
  | sandbox a => obtain ⟨_, _, -, rfl⟩ := step_sandbox h; rfl
  | command i a =>
    obtain ⟨c, x, run, hc, hx, rfl⟩ := step_command h
    apply countP_set_eq hc
    by_cases ho : c.origin = .dispatched
    · obtain ⟨st, hst, hterm⟩ := (missing_eq_zero_iff s).mp hm c (List.mem_of_getElem? hc) ho
      simp only [stage_step_row hx hst hterm, hst]
    · simp only [beq_eq_false_iff_ne.mpr ho, Bool.false_and]
  | trigger =>
    cases h
    simp [State.ownCount]
  | requestCancel => obtain ⟨_, rfl⟩ := step_requestCancel h; rfl
  | commitCancel => rw [step_commitCancel h]; rfl
  | handler a =>
    cases a with
    | takeEvent => obtain ⟨_, _, -, -, rfl⟩ := step_takeEvent h; rfl
    | readyUpdate => obtain ⟨-, rfl⟩ := step_readyUpdate h; rfl
    | publishCommand =>
      obtain ⟨k, hh, -, -⟩ := step_publishCommand h
      have hnone := hs.unwritten (by rw [hh, Handler.readies])
      rw [hnone] at hw
      cases hw
    | writeCount => obtain ⟨_, -, -, rfl⟩ := step_writeCount h; rfl
    | failedUpdate => obtain ⟨-, rfl⟩ := step_failedUpdate h; rfl

/-! ### The run is closed over its own tests -/

/-- What the results handler has established for every command that is about to close a
running run, and what the sandbox manager has read. -/
structure OwnClosing (cfg : Config) (s : State) : Prop where
  wellformed : Wellformed cfg s
  finished : ∀ c ∈ s.commands, c.stage.closing = true → s.run.status = .running →
    s.missing = 0 ∧ 0 < s.published
  rate : ∀ c ∈ s.commands, ∀ o r, c.stage = .rated o r → s.run.status = .running → r = s.ownRate
  polled : ∀ k d, s.sandbox = .counting k d → 0 < d → s.run.dispatchedCount = some d

theorem running_of_step {a : Act} (h : step cfg s a = some t) (hs : Wellformed cfg s)
    (hw : s.run.dispatchedCount.isSome = true) (ht : t.run.status = .running) :
    s.run.status = .running := by
  obtain ⟨n, hn⟩ := Option.isSome_iff_exists.mp hw
  rcases (hs.written n hn).2.2 with hr | hterm
  · exact hr
  · have hne := (hs.pastReady hw).ne_readyUpdate h
    have hterm' := step_terminal hne h hterm
    rw [ht] at hterm'
    cases hterm'

theorem step_missing {a : Act} (h : step cfg s a = some t) (hs : Wellformed cfg s)
    (hw : s.run.dispatchedCount.isSome = true) (hm : s.missing = 0) :
    t.missing = 0 ∧ t.published = s.published ∧ t.ownRate = s.ownRate := by
  have hcount := step_ownCount h hs hw hm
  have hpub : t.published = s.published := by rw [published_eq, published_eq, hcount]
  refine ⟨(hcount _).trans hm, hpub, ?_⟩
  rw [State.ownRate, State.ownRate, hpub, hcount]

theorem missing_of_passing (hs : Wellformed cfg s) (hc : (counts s.run.dispatchedCount s.rows).unfinished = false)
    (hno : ¬ Misled s (s.run.dispatchedCount.getD 0)) : s.missing = 0 ∧ 0 < s.published := by
  obtain ⟨n, hn⟩ := Option.isSome_iff_exists.mp (dispatchedCount_isSome hc)
  have hpub := (hs.written n hn).2.1
  rw [hn] at hc hno
  refine ⟨?_, ?_⟩
  · by_contra hm
    exact hno ((passing_missing_iff hpub).mp ⟨hc, Nat.pos_of_ne_zero hm⟩)
  · rw [hpub]
    exact ((unfinished_eq_false_iff _).mp hc).1

theorem stage_step_rated {th : Thresholds} {run run' : RunRow} {rows : List TestStatus} {x : Stage}
    {a : CommandAct} {o : Outcome} {r : ℚ} (h : x.step th run rows a = some (.rated o r, run')) :
    a = .readStats ∧ x = .counted o ∧ r = (stats rows).rate := by
  cases a with
  | readStats =>
    cases x <;> cases h
    exact ⟨rfl, rfl, rfl⟩
  | consume | readCounts =>
    cases x <;> simp only [Stage.step, reduceCtorEq, Option.some.injEq, Prod.mk.injEq] at h
    obtain ⟨h, -⟩ := h
    repeat' split at h
    all_goals cases h
  | insertSkipped | insertRunning | settle | publishResult | close =>
    cases x <;> cases h

/-- A closing command of the new state was closing, or its counts have just passed. -/
theorem closing_missing {a : Act} {d : Command} (h : step cfg s a = some t) (hs : OwnClosing cfg s)
    (hown : OwnReads s a t) (hd : d ∈ t.commands) (hcl : d.stage.closing = true)
    (hrun : t.run.status = .running) :
    s.run.status = .running ∧ s.run.dispatchedCount.isSome = true ∧ s.missing = 0 ∧ 0 < s.published := by
  have hclosing : ∀ c ∈ s.commands, c.stage.closing = true →
      s.run.status = .running ∧ s.run.dispatchedCount.isSome = true ∧ s.missing = 0 ∧ 0 < s.published := by
    intro c hc hcl
    have hw := hs.wellformed.closing c hc hcl
    have hr := running_of_step h hs.wellformed hw hrun
    exact ⟨hr, hw, hs.finished c hc hcl hr⟩
  rcases step_closing_mem h hd hcl with hd | ⟨i, b, c, x, rfl, hc, hx, rfl⟩
  · exact hclosing d hd hcl
  · rcases stage_step_closing hx hcl with hcl | ⟨rfl, hpass⟩
    · exact hclosing c hc hcl
    · have hw := dispatchedCount_isSome hpass
      have hr := running_of_step h hs.wellformed hw hrun
      exact ⟨hr, hw, missing_of_passing hs.wellformed hpass (hown hr)⟩

theorem sandbox_step_counting {run : RunRow} {rows : List TestStatus} {x : Sandbox} {a : SandboxAct}
    {es : List Event} {k d : ℕ} (h : x.step cfg run rows a = some (.counting k d, es)) :
    d = run.dispatchedCount.getD 0 := by
  have hleave : ∀ p, Sandbox.leave p ≠ .counting k d := by
    intro p
    cases p <;> nofun
  cases a with
  | pollDispatched =>
    cases x <;> simp only [Sandbox.step, reduceCtorEq] at h
    split at h <;> cases h
    rfl
  | unexpected =>
    simp only [Sandbox.step] at h
    split at h <;> cases h
  | interrupted =>
    simp only [Sandbox.step] at h
    split at h
    · exact absurd (congrArg Prod.fst (Option.some.inj h)) (hleave _)
    · cases h
  | publishFailed =>
    cases x with
    | raising p => exact absurd (congrArg Prod.fst (Option.some.inj h)) (hleave p)
    | _ => cases h
  | acquire | preCheck | postCheck | pollCounts | pollCancelled | pollSessions | expire =>
    cases x <;> simp only [Sandbox.step, reduceCtorEq, Option.some.injEq, Prod.mk.injEq] at h
    all_goals
      repeat' split at h
      all_goals simp at h
  | publishProvisioning | provisionFails | provisionReturns | publishReady | teardownRaises
  | publishClosed =>
    cases x <;> cases h

theorem step_polled {a : Act} (h : step cfg s a = some t) (hs : OwnClosing cfg s) {k d : ℕ}
    (ht : t.sandbox = .counting k d) (hd : 0 < d) : t.run.dispatchedCount = some d := by
  by_cases ha : ∃ b, a = .sandbox b
  · obtain ⟨b, rfl⟩ := ha
    obtain ⟨x, es, hx, rfl⟩ := step_sandbox h
    change x = .counting k d at ht
    subst ht
    have hget := sandbox_step_counting hx
    change s.run.dispatchedCount = some d
    cases hn : s.run.dispatchedCount with
    | none =>
      rw [hn] at hget
      exact absurd hget hd.ne'
    | some n =>
      rw [hn] at hget
      rw [hget]
      rfl
  · rw [step_sandbox_eq h (fun b hb => ha ⟨b, hb⟩)] at ht
    exact step_count h hs.wellformed (hs.polled k d ht hd)

theorem step_ownClosing {a : Act} (h : step cfg s a = some t) (hs : OwnClosing cfg s)
    (hown : OwnReads s a t) : OwnClosing cfg t := by
  refine ⟨step_wellformed h hs.wellformed, ?_, ?_, fun k d => step_polled h hs⟩
  · intro d hd hcl hrun
    obtain ⟨-, hw, hm, hp⟩ := closing_missing h hs hown hd hcl hrun
    obtain ⟨hm', hp', -⟩ := step_missing h hs.wellformed hw hm
    rw [hp']
    exact ⟨hm', hp⟩
  · intro d hd o r hr hrun
    have hcl : d.stage.closing = true := by
      rw [hr]
      rfl
    obtain ⟨hsrun, hw, hm, hp⟩ := closing_missing h hs hown hd hcl hrun
    rw [(step_missing h hs.wellformed hw hm).2.2]
    rcases step_closing_mem h hd hcl with hd | ⟨i, b, c, x, rfl, hc, hx, rfl⟩
    · exact hs.rate d hd o r hr hsrun
    · change x = .rated o r at hr
      subst hr
      obtain ⟨rfl, -, rfl⟩ := stage_step_rated hx
      exact rate_eq_ownRate hm hp (hown hsrun)

theorem stage_step_close {th : Thresholds} {run run' : RunRow} {rows : List TestStatus} {x x' : Stage}
    (h : x.step th run rows .close = some (x', run')) :
    ∃ o rate, x = .rated o rate ∧ run' = closeRun th rate run := by
  cases x <;> cases h
  exact ⟨_, _, rfl, rfl⟩

theorem close_closesOwn {i : ℕ} (h : step cfg s (.command i .close) = some t) (hs : OwnClosing cfg s) :
    ClosesOwn cfg s (.command i .close) t := by
  intro hrun
  obtain ⟨c, x, run, hc, hx, rfl⟩ := step_command h
  have hmem := List.mem_of_getElem? hc
  obtain ⟨o, rate, hrated, rfl⟩ := stage_step_close hx
  have hcl : c.stage.closing = true := by rw [hrated, Stage.closing]
  obtain ⟨n, hn⟩ := Option.isSome_iff_exists.mp (hs.wellformed.closing c hmem hcl)
  obtain ⟨hto, hpub, -⟩ := hs.wellformed.written n hn
  refine ⟨⟨hpub.trans hto, (hs.finished c hmem hcl hrun).1⟩, ?_⟩
  rw [hs.rate c hmem o rate hrated hrun, closeRun_of_running hrun]

theorem pollCounts_closesOwn (h : step cfg s (.sandbox .pollCounts) = some t) (hs : OwnClosing cfg s)
    (hown : OwnReads s (.sandbox .pollCounts) t) : ClosesOwn cfg s (.sandbox .pollCounts) t := by
  intro ht
  obtain ⟨x, es, hx, rfl⟩ := step_sandbox h
  change x = .tearingDown at ht
  subst ht
  cases hsb : s.sandbox with
  | counting k d =>
    simp only [hsb, Sandbox.step, Option.some.injEq, Prod.mk.injEq] at hx
    have hno : ¬ Misled s d := by
      simpa only [OwnReads, hsb] using hown
    have hdone : (poll d s.rows).done = true := by
      by_contra hd
      rw [if_neg hd] at hx
      cases hx.1
    have hpass := (poll_done_iff_counts d s.rows).mp hdone
    have hd : 0 < d := ((unfinished_eq_false_iff _).mp hpass).1
    obtain ⟨hto, hpub, -⟩ := hs.wellformed.written d (hs.polled k d hsb hd)
    refine ⟨hpub.trans hto, ?_⟩
    by_contra hm
    exact hno ((passing_missing_iff hpub).mp ⟨hpass, Nat.pos_of_ne_zero hm⟩)
  | _ =>
    rw [hsb] at hx
    cases hx

theorem step_closesOwn {a : Act} (h : step cfg s a = some t) (hs : OwnClosing cfg s)
    (hown : OwnReads s a t) : ClosesOwn cfg s a t := by
  cases a with
  | command i a =>
    cases a with
    | close => exact close_closesOwn h hs
    | _ => trivial
  | sandbox a =>
    cases a with
    | pollCounts => exact pollCounts_closesOwn h hs hown
    | _ => trivial
  | _ => trivial

/-- The acts that take the command at index `i` from its queue to its published result. -/
def answer (i : ℕ) (o : Outcome) : List Act :=
  [.command i (.consume true), .command i .insertRunning, .command i (.settle o), .command i .publishResult]

def readAndClose (i : ℕ) : List Act :=
  [.command i .readCounts, .command i .readStats, .command i .close]

/-- Two tests are dispatched and a third is triggered by an agent. The run is closed, and
the sandbox torn down, while the second command is still in its queue. -/
def triggeredInstead : List Act :=
  provisionReady ++ [.handler .publishCommand, .handler .publishCommand, .handler .writeCount, .trigger] ++
    answer 0 .passed ++ answer 2 .passed ++ readAndClose 2 ++
    [.sandbox .pollCancelled, .sandbox .pollDispatched, .sandbox .pollCounts]

end ReleaseValidation.Lifecycle
