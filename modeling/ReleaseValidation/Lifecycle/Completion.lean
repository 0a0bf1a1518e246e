import ReleaseValidation.Lifecycle.Settlement

/-! # When the last result closes the run

The counts are read only while a result message is handled, and the dispatched count
is written after all commands are published. A run that nothing disturbs is closed
exactly when some result message has its counts read after that write: the message
that is handled last among those finds every row terminal.
-/
namespace ReleaseValidation.Lifecycle
open Store Orchestrator Runs

variable {cfg : Config} {s t : State}

/-- No agent, no cancel, and no failure event of the sandbox. -/
def Act.undisturbed : Act → Bool
  | .trigger | .commitCancel | .sandbox .publishFailed => false
  | _ => true

/-- Some result message had its counts read after the dispatched count was written. -/
def LateRead (as : List Act) : Prop :=
  ∃ pre i post, as = pre ++ .command i .readCounts :: post ∧ Act.handler .writeCount ∈ pre

theorem LateRead.append {as bs : List Act} (h : LateRead as) : LateRead (as ++ bs) := by
  obtain ⟨pre, i, post, rfl, hw⟩ := h
  exact ⟨pre, i, post ++ bs, by simp, hw⟩

/-! ### A closed run had a late read -/

/-- What an undisturbed run owes to its past. -/
structure Undisturbed (as : List Act) (t : State) : Prop where
  written : t.run.dispatchedCount.isSome = true → Act.handler .writeCount ∈ as
  closing : ∀ c ∈ t.commands, c.stage.closing = true → LateRead as
  status : t.run.status = .queued ∨ t.run.status = .running ∨ LateRead as

theorem Undisturbed.snoc {as : List Act} {a : Act} (hs : Undisturbed as s)
    (hrun : t.run = s.run) (hcl : ∀ c ∈ t.commands, c.stage.closing = true → c ∈ s.commands) :
    Undisturbed (as ++ [a]) t := by
  refine ⟨?_, fun c hc h => (hs.closing c (hcl c hc h) h).append, ?_⟩
  · rw [hrun]
    exact fun hw => List.mem_append_left _ (hs.written hw)
  · rw [hrun]
    exact hs.status.imp_right (Or.imp_right LateRead.append)

theorem command_undisturbed {as : List Act} {i : ℕ} {a : CommandAct} (hs : Undisturbed as s)
    (h : step cfg s (.command i a) = some t) : Undisturbed (as ++ [.command i a]) t := by
  obtain ⟨c, x, run, hc, hx, rfl⟩ := step_command h
  have hmem := List.mem_of_getElem? hc
  obtain ⟨hcount, -, -⟩ := stage_step_written hx
  refine ⟨?_, ?_, ?_⟩
  · intro hw
    refine List.mem_append_left _ (hs.written ?_)
    rw [← hcount]
    exact hw
  · intro d hd hcl
    rcases List.mem_or_eq_of_mem_set hd with hd | rfl
    · exact (hs.closing d hd hcl).append
    · rcases stage_step_closing hx hcl with hcl | ⟨rfl, hcl⟩
      · exact (hs.closing c hmem hcl).append
      · exact ⟨as, i, [], rfl, hs.written (dispatchedCount_isSome hcl)⟩
  · rcases stage_step_run hx with rfl | ⟨o, rate, hrated, -, -, -⟩
    · exact hs.status.imp_right (Or.imp_right LateRead.append)
    · refine .inr (.inr (hs.closing c hmem ?_).append)
      rw [hrated]
      rfl

theorem undisturbed_step {as : List Act} {a : Act} (ha : a.undisturbed = true)
    (hf : s.handler ≠ .failedChecked) (hs : Undisturbed as s) (h : step cfg s a = some t) :
    Undisturbed (as ++ [a]) t := by
  cases a with
  | sandbox a =>
    obtain ⟨x, es, -, rfl⟩ := step_sandbox h
    exact hs.snoc rfl fun _ hc _ => hc
  | command i a => exact command_undisturbed hs h
  | trigger | commitCancel => cases ha
  | requestCancel =>
    obtain ⟨n, rfl⟩ := step_requestCancel h
    exact hs.snoc rfl fun _ hc _ => hc
  | handler a =>
    cases a with
    | takeEvent =>
      obtain ⟨e, es, -, -, rfl⟩ := step_takeEvent h
      exact hs.snoc rfl fun _ hc _ => hc
    | readyUpdate =>
      obtain ⟨-, rfl⟩ := step_readyUpdate h
      exact ⟨fun hw => List.mem_append_left _ (hs.written hw),
        fun c hc hcl => (hs.closing c hc hcl).append, .inr (.inl rfl)⟩
    | publishCommand =>
      obtain ⟨k, -, -, rfl⟩ := step_publishCommand h
      refine hs.snoc rfl fun c hc hcl => ?_
      rcases List.mem_append.mp hc with hc | hc
      · exact hc
      · rw [List.mem_singleton.mp hc] at hcl
        cases hcl
    | writeCount =>
      obtain ⟨k, -, -, rfl⟩ := step_writeCount h
      exact ⟨fun _ => by simp, fun c hc hcl => (hs.closing c hc hcl).append,
        hs.status.imp_right (Or.imp_right LateRead.append)⟩
    | failedUpdate => exact absurd (step_failedUpdate h).1 hf

theorem undisturbed_exec {aiSession : Bool} {as : List Act}
    (h : exec (step cfg) (.initial aiSession) as = some t) (hu : ∀ a ∈ as, a.undisturbed = true) :
    Undisturbed as t := by
  refine exec_history (P := fun as u => (∀ a ∈ as, a.undisturbed = true) → Undisturbed as u) ?_ ?_ h hu
  · exact fun _ => ⟨nofun, nofun, .inl rfl⟩
  · intro as u a v hexec hP hv hall
    have hpre : ∀ b ∈ as, b.undisturbed = true := fun b hb => hall b (List.mem_append_left _ hb)
    have ha : a.undisturbed = true := hall a (by simp)
    refine undisturbed_step ha ?_ (hP hpre) hv
    intro hf
    have hmem := (owed_exec hexec).failed (.inr hf)
    exact absurd (hpre _ hmem) (by decide)

/-! ### A late read closes the run -/

/-- After the dispatch, every command of the run is one of the counted ones. -/
structure Dispatched (cfg : Config) (s : State) : Prop where
  wellformed : Wellformed cfg s
  origins : ∀ c ∈ s.commands, c.origin = .dispatched
  written : s.run.dispatchedCount.isSome = true

theorem Dispatched.count (hs : Dispatched cfg s) : s.run.dispatchedCount = some s.commands.length := by
  obtain ⟨n, hn⟩ := Option.isSome_iff_exists.mp hs.written
  have hp := (hs.wellformed.written n hn).2.1
  rw [hn, ← hp, State.published, List.count_eq_length.mpr, List.length_map]
  intro o ho
  obtain ⟨c, hc, rfl⟩ := List.mem_map.mp ho
  exact (hs.origins c hc).symm

/-- Counts that do not let the run be closed are held up by a command without a
terminal row. -/
theorem exists_unfinished {commands : List Command} (hne : commands ≠ [])
    (h : (counts (some commands.length) (commands.filterMap (·.stage.row))).unfinished = true) :
    ∃ d ∈ commands, ∀ st, d.stage.row = some st → st.terminal = false := by
  by_contra hno
  push Not at hno
  have hall : ∀ d ∈ commands, ∃ st, d.stage.row = some st ∧ st.terminal = true := by
    intro d hd
    obtain ⟨st, hst, hterm⟩ := hno d hd
    exact ⟨st, hst, by simpa using hterm⟩
  have hlen : (commands.filterMap (·.stage.row)).length = commands.length := by
    rw [List.filterMap_length_eq_length]
    intro d hd
    obtain ⟨st, hst, -⟩ := hall d hd
    rw [hst]
    rfl
  have hfin : (counts (some commands.length) (commands.filterMap (·.stage.row))).unfinished = false := by
    rw [counts_unfinished_eq_false_iff, Option.getD_some, hlen]
    refine ⟨List.length_pos_iff.mpr hne, le_refl _, ?_⟩
    intro st hst
    obtain ⟨d, hd, hrow⟩ := List.mem_filterMap.mp hst
    obtain ⟨st', hst', hterm⟩ := hall d hd
    rw [hrow] at hst'
    cases hst'
    exact hterm
  rw [hfin] at h
  cases h

/-- A result message is still to be handled to its end, or the run is terminal. -/
def Unsettled (s : State) : Prop :=
  s.run.status.terminal = true ∨ ∃ c ∈ s.commands, c.stage.isHandled = false

theorem isHandled_row {x : Stage} (h : x.isHandled = true) : ∃ st, x.row = some st ∧ st.terminal = true := by
  cases x with
  | handled o => exact ⟨o.val, rfl, o.property⟩
  | _ => cases h

theorem stage_step_handled {th : Thresholds} {run run' : RunRow} {rows : List TestStatus} {x x' : Stage}
    {a : CommandAct} (h : x.step th run rows a = some (x', run')) (hx : x.isHandled = false)
    (hx' : x'.isHandled = true) :
    ((counts run.dispatchedCount rows).unfinished = true ∧ ∃ st, x.row = some st ∧ st.terminal = true) ∨
      ∃ rate, run' = closeRun th rate run := by
  cases a with
  | readCounts =>
    cases x with
    | answered o =>
      cases h
      split at hx'
      next hc => exact .inl ⟨hc, o.val, rfl, o.property⟩
      · cases hx'
    | _ => cases h
  | close =>
    cases x with
    | rated o rate =>
      cases h
      exact .inr ⟨rate, rfl⟩
    | _ => cases h
  | consume cached =>
    cases x <;> cases h
    split at hx'
    · cases hx'
    · split at hx' <;> cases hx'
  | insertSkipped | insertRunning | settle | publishResult | readStats =>
    cases x <;> cases h
    cases hx'

theorem step_origins {a : Act} (ha : a.undisturbed = true) (h : step cfg s a = some t)
    (hs : ∀ c ∈ s.commands, c.origin = .dispatched) : ∀ c ∈ t.commands, c.origin = .dispatched := by
  cases a with
  | sandbox a => obtain ⟨_, _, -, rfl⟩ := step_sandbox h; exact hs
  | command i a =>
    obtain ⟨c, x, run, hc, -, rfl⟩ := step_command h
    intro d hd
    rcases List.mem_or_eq_of_mem_set hd with hd | rfl
    · exact hs d hd
    · exact hs c (List.mem_of_getElem? hc)
  | trigger | commitCancel => cases ha
  | requestCancel => obtain ⟨_, rfl⟩ := step_requestCancel h; exact hs
  | handler a =>
    cases a with
    | takeEvent => obtain ⟨_, _, -, -, rfl⟩ := step_takeEvent h; exact hs
    | readyUpdate => obtain ⟨-, rfl⟩ := step_readyUpdate h; exact hs
    | publishCommand =>
      obtain ⟨_, -, -, rfl⟩ := step_publishCommand h
      intro d hd
      rcases List.mem_append.mp hd with hd | hd
      · exact hs d hd
      · rw [List.mem_singleton.mp hd]
    | writeCount => obtain ⟨_, -, -, rfl⟩ := step_writeCount h; exact hs
    | failedUpdate => obtain ⟨-, rfl⟩ := step_failedUpdate h; exact hs

theorem step_dispatched {a : Act} (ha : a.undisturbed = true) (h : step cfg s a = some t)
    (hs : Dispatched cfg s) : Dispatched cfg t :=
  ⟨step_wellformed h hs.wellformed, step_origins ha h hs.origins,
    by rw [step_count h hs.wellformed hs.count]; rfl⟩

theorem dispatched_exec {aiSession : Bool} {as : List Act}
    (h : exec (step cfg) (.initial aiSession) as = some t) (hu : ∀ a ∈ as, a.undisturbed = true)
    (hw : Act.handler .writeCount ∈ as) : Dispatched cfg t := by
  refine ⟨exec_wellformed h (wellformed_initial aiSession), ?_, exec_written h hw⟩
  refine exec_invariant_always (I := fun u : State => ∀ c ∈ u.commands, c.origin = .dispatched)
    (Q := fun _ a _ => a.undisturbed = true) ?_ ?_ (always_of_mem hu) h
  · intro u a v hI hv ha
    exact step_origins ha hv hI
  · intro c hc
    cases hc

theorem step_unsettled {a : Act} (h : step cfg s a = some t)
    (hs : Dispatched cfg s) (hun : Unsettled s) : Unsettled t := by
  have hpast := hs.wellformed.pastReady hs.written
  have hstarted := (hs.wellformed.written _ hs.count).2.2
  rcases hun with hterm | ⟨c, hc, hh⟩
  · exact .inl (step_terminal (hpast.ne_readyUpdate h) h hterm)
  · obtain ⟨j, hj⟩ := List.mem_iff_getElem?.mp hc
    rcases step_getElem h hj with hj' | ⟨b, x, rfl, hj', hx⟩
    · exact .inr ⟨c, List.mem_of_getElem? hj', hh⟩
    · cases hxh : x.isHandled with
      | false => exact .inr ⟨_, List.mem_of_getElem? hj', hxh⟩
      | true =>
        rcases stage_step_handled hx hh hxh with ⟨hun, st, hrow, hst⟩ | ⟨rate, hrun⟩
        · right
          rw [hs.count] at hun
          obtain ⟨d, hd, hopen⟩ := exists_unfinished (List.ne_nil_of_mem hc) hun
          have hdh : d.stage.isHandled = false := by
            cases hdh : d.stage.isHandled with
            | false => rfl
            | true =>
              obtain ⟨st', hrow', hst'⟩ := isHandled_row hdh
              rw [hopen st' hrow'] at hst'
              cases hst'
          obtain ⟨k, hk⟩ := List.mem_iff_getElem?.mp hd
          rcases step_getElem h hk with hk' | ⟨b', x', hb, -, -⟩
          · exact ⟨d, List.mem_of_getElem? hk', hdh⟩
          · cases hb
            rw [hj] at hk
            cases hk
            rw [hopen st hrow] at hst
            cases hst
        · left
          rw [hrun]
          exact closeRun_terminal hstarted

theorem lateRead_settles {aiSession : Bool} {as : List Act}
    (h : exec (step cfg) (.initial aiSession) as = some t) (hu : ∀ a ∈ as, a.undisturbed = true)
    (hall : ∀ c ∈ t.commands, c.stage.isHandled = true) (hl : LateRead as) :
    t.run.status.terminal = true := by
  obtain ⟨pre, i, post, rfl, hw⟩ := hl
  obtain ⟨u, hpre, h⟩ := exec_append_iff.mp h
  have hdisp : Dispatched cfg u :=
    dispatched_exec hpre (fun a ha => hu a (List.mem_append_left _ ha)) hw
  have hopen : Unsettled u := by
    obtain ⟨v, hv, -⟩ := Option.bind_eq_some_iff.mp h
    obtain ⟨c, x, run, hc, hx, -⟩ := step_command hv
    refine .inr ⟨c, List.mem_of_getElem? hc, ?_⟩
    cases hst : c.stage with
    | answered o => rfl
    | _ =>
      rw [hst] at hx
      cases hx
  have hpost : ∀ a ∈ Act.command i .readCounts :: post, a.undisturbed = true :=
    fun a ha => hu a (List.mem_append_right _ ha)
  have hend : Dispatched cfg t ∧ Unsettled t := by
    refine exec_invariant_always (I := fun u => Dispatched cfg u ∧ Unsettled u)
      (Q := fun _ a _ => a.undisturbed = true) ?_ ⟨hdisp, hopen⟩ (always_of_mem hpost) h
    intro u' a v hI hv ha
    exact ⟨step_dispatched ha hv hI.1, step_unsettled hv hI.1 hI.2⟩
  rcases hend.2 with hterm | ⟨c, hc, hh⟩
  · exact hterm
  · rw [hall c hc] at hh
    cases hh

/-- An undisturbed run that has dispatched its commands, and whose result messages are
all handled, has left running exactly when some result message had its counts read
after the dispatched count was written. -/
theorem not_running_iff_lateRead {as : List Act}
    (h : exec (step cfg) (.initial false) as = some t) (hu : ∀ a ∈ as, a.undisturbed = true)
    (hd : t.run.dispatchedCount = some cfg.selected)
    (hall : ∀ c ∈ t.commands, c.stage.isHandled = true) : t.run.status ≠ .running ↔ LateRead as := by
  have hwf := exec_wellformed h (wellformed_initial false)
  have hstarted := (hwf.written _ hd).2.2
  constructor
  · intro hne
    rcases (undisturbed_exec h hu).status with hq | hr | hl
    · rcases hstarted with hr | hr
      · exact absurd hr hne
      · rw [hq] at hr
        cases hr
    · exact absurd hr hne
    · exact hl
  · intro hl he
    have hterm := lateRead_settles h hu hall hl
    rw [he] at hterm
    cases hterm

/-- One test, whose result is handled between its command's publication and the write of
the dispatched count. -/
def resultBeforeCount : List Act :=
  provisionReady ++ [.handler .publishCommand, .command 0 (.consume true), .command 0 .insertRunning,
    .command 0 (.settle .passed), .command 0 .publishResult, .command 0 .readCounts,
    .handler .writeCount]

theorem run_left_running :
    ∃ t, exec (step (.default 1)) (.initial false) resultBeforeCount = some t ∧
      (∀ a ∈ resultBeforeCount, a.undisturbed = true) ∧ t.run.dispatchedCount = some 1 ∧
      (∀ c ∈ t.commands, c.stage.isHandled = true) ∧ t.run.status = .running :=
  ⟨⟨⟨.running, some 1, false, none⟩, [⟨.dispatched, .handled .passed⟩], [], .idle, 0, .waiting 0⟩,
    by decide, by decide, rfl, by decide, rfl⟩

/-- The same run with the two last steps exchanged is closed. -/
theorem not_running_iff_lateRead_one :
    ∃ as t, exec (step (.default 1)) (.initial false) as = some t ∧ t.run.status ≠ .running := by
  let as : List Act := resultBeforeCount.take 14 ++ [.handler .writeCount, .command 0 .readCounts,
    .command 0 .readStats, .command 0 .close]
  have h : exec (step (.default 1)) (.initial false) as =
      some ⟨⟨.completed, some 1, false, some 100⟩, [⟨.dispatched, .handled .passed⟩], [], .idle, 0,
        .waiting 0⟩ := by decide +kernel
  refine ⟨as, _, h, (not_running_iff_lateRead h (by decide) rfl (by decide)).mpr ?_⟩
  exact ⟨resultBeforeCount.take 14 ++ [.handler .writeCount], 0, [.command 0 .readStats, .command 0 .close],
    rfl, by decide⟩

end ReleaseValidation.Lifecycle
