import ReleaseValidation.AiAgent.VerdictTrails

/-! # The step count of a verdict and the calls linked to it

The count is that of the trail which the last recording of the verdict has claimed. The
calls which earlier recordings of it claimed stay linked to the row, so the count falls
behind when a test is recorded again that has claimed calls before.
-/
namespace ReleaseValidation.AiAgent.Verdicts
open Store Serials Runs
variable {ω : Type} {R : Reading ω} {s t : State ω} {sid : ℕ}

/-- The number of rows of `ai.tool_invocations` with this `verdict_id`. -/
def State.linkedCount (s : State ω) (id : ℕ) : ℕ := s.invocations.countP fun inv => decide (inv.verdictId = some id)

/-- The count of each verdict is the number of the calls linked to it; a row that no recording has
written has no count and stands for none. -/
def State.CountsAgree (s : State ω) : Prop := ∀ v ∈ s.verdicts, v.trailStepCount.getD 0 = s.linkedCount v.id

/-- No test is recorded again whose verdict has calls linked to it. -/
def RecordsAfresh (R : Reading ω) (s : State ω) (a : Act ω) (_ : State ω) : Prop :=
  ∀ c db row, a = .execute c db → (s.execute R c db).1 = .recorded row →
    ∀ v ∈ s.verdicts, v.isFor c.sessionId row.definitionSlug = true → s.linkedCount v.id = 0

theorem linkedCount_recordInvocation (s : State ω) (c : Call ω) (db : Database) (id : ℕ) :
    (s.recordInvocation c db).linkedCount id = s.linkedCount id := by
  unfold State.linkedCount
  rw [recordInvocation_invocations, List.countP_append]
  apply Nat.add_eq_left.mpr
  rw [List.countP_eq_zero]
  intro inv hinv hid
  have hnone := (auditRows_unclaimed inv hinv).symm.trans (of_decide_eq_true hid)
  cases hnone

/-- A number beyond the verdicts has no calls linked to it. -/
theorem Sound.linkedCount_eq_zero (hs : Sound s) {id : ℕ} (hid : s.verdicts.length ≤ id) : s.linkedCount id = 0 := by
  unfold State.linkedCount
  rw [List.countP_eq_zero]
  intro inv hinv hclaim
  obtain ⟨v, hv, rfl, -⟩ := hs.claims inv hinv id (of_decide_eq_true hclaim)
  exact absurd (hs.keyed.numbered.key_lt hv) (Nat.not_lt.mpr hid)

theorem Sound.linkedCount_recordVerdict (hs : Sound s) (sub : Submission) (id : ℕ) :
    (s.recordVerdict R sid sub).2.linkedCount id =
      if id = (s.recordVerdict R sid sub).1.id then (claimTrail R s.invocations sid).steps.length + s.linkedCount id
      else s.linkedCount id := by
  unfold State.linkedCount
  rw [recordVerdict_invocations]
  split
  next he =>
    rw [countP_updateWhere, List.countP_eq_length_filter, hs.length_linked]
    intro inv hlinked
    constructor
    · rw [linked_unclaimed hlinked]
      rfl
    · exact decide_eq_true (congrArg some he.symm)
  next hne =>
    rw [List.countP_eq_length_filter, List.countP_eq_length_filter, filter_updateWhere]
    intro inv _ hlinked
    constructor
    · rw [linked_unclaimed hlinked]
      rfl
    · exact decide_eq_false fun he => hne (Option.some.inj he).symm

/-- The new count is that of the trail, so it agrees when nothing was linked to the row before. -/
theorem Sound.countsAgree_recordVerdict_iff (hs : Sound s) (hc : s.CountsAgree) (sub : Submission) :
    (s.recordVerdict R sid sub).2.CountsAgree ↔
      ∀ v ∈ s.verdicts, v.isFor sid sub.definitionSlug = true → s.linkedCount v.id = 0 := by
  have hw : Written s.verdicts sid sub.definitionSlug (sub.row R sid (claimTrail R s.invocations sid))
      ((s.recordVerdict R sid sub).2.verdicts, (s.recordVerdict R sid sub).1.id) :=
    upsert_written hs.keyed (row_key R sid sub (claimTrail R s.invocations sid))
  constructor
  · intro h v hv hfor
    have hnew := h (s.recordVerdict R sid sub).1 hw.mem
    rw [hs.linkedCount_recordVerdict, if_pos rfl] at hnew
    rw [hw.same v hv hfor]
    exact Nat.add_eq_left.mp hnew.symm
  · intro h
    have hzero : s.linkedCount (s.recordVerdict R sid sub).1.id = 0 := by
      by_cases hex : ∃ v ∈ s.verdicts, v.isFor sid sub.definitionSlug = true
      · obtain ⟨v, hv, hfor⟩ := hex
        have hlinked := h v hv hfor
        rw [hw.same v hv hfor] at hlinked
        exact hlinked
      · apply hs.linkedCount_eq_zero
        apply Nat.le_of_eq
        symm
        apply hw.fresh
        intro v hv
        exact Bool.eq_false_iff.mpr fun hfor => hex ⟨v, hv, hfor⟩
    intro v hv
    rw [hs.linkedCount_recordVerdict]
    rcases hw.cases v hv with hnew | ⟨hold, hfor⟩
    · change v = (s.recordVerdict R sid sub).1 at hnew
      rw [hnew, if_pos rfl, hzero, Nat.add_zero]
      rfl
    · rw [if_neg]
      · exact hc v hold
      · intro he
        have hv' := hw.keyed.numbered.eq_of_key hv hw.mem he
        rw [hv', (row_key R sid sub _ _).2] at hfor
        cases hfor

theorem countsAgree_recordInvocation_iff (c : Call ω) (db : Database) :
    (s.recordInvocation c db).CountsAgree ↔ s.CountsAgree := by
  unfold State.CountsAgree
  rw [recordInvocation_verdicts]
  exact forall₂_congr fun v _ => by rw [linkedCount_recordInvocation]

theorem Sound.countsAgree_recordMissingVerdicts (hs : Sound s) (hc : s.CountsAgree) (mode : ExecutionMode)
    (selected : List String) (committed : Bool) : (s.recordMissingVerdicts sid mode selected committed).CountsAgree := by
  obtain ⟨slugs, he⟩ := recordMissingVerdicts_verdicts s sid mode selected committed
  obtain ⟨-, -, hnew⟩ := hs.keyed.foldl_insertBlocked sid slugs
  intro v hv
  have hlinked : (s.recordMissingVerdicts sid mode selected committed).linkedCount v.id = s.linkedCount v.id := by
    unfold State.linkedCount
    rw [recordMissingVerdicts_invocations]
  rw [he] at hv
  rw [hlinked]
  rcases hnew v hv with hold | ⟨hid, slug, -, hrow⟩
  · exact hc v hold
  · rw [hs.linkedCount_eq_zero hid, hrow]
    rfl

theorem countsAgree_step_iff {a : Act ω} (hs : Sound s) (hc : s.CountsAgree) (h : step R s a = some t) :
    t.CountsAgree ↔ RecordsAfresh R s a t := by
  cases a with
  | execute c db =>
    cases h
    rcases execute_cases R s c db with ⟨sub, -, he⟩ | ⟨answer, hanswer, he⟩
    · rw [he, countsAgree_recordInvocation_iff, hs.countsAgree_recordVerdict_iff hc]
      constructor
      · rintro hlinked c' db' row ⟨⟩ hrow
        rw [he] at hrow
        cases hrow
        exact hlinked
      · intro hfresh
        exact hfresh c db _ rfl (by rw [he])
    · rw [he, countsAgree_recordInvocation_iff]
      apply iff_of_true hc
      rintro c' db' row ⟨⟩ hrow
      rw [he] at hrow
      exact absurd hrow (hanswer row)
  | recordMissing sid mode selected committed =>
    cases h
    apply iff_of_true (hs.countsAgree_recordMissingVerdicts hc mode selected committed)
    intro c db row hact
    cases hact

/-- The counts agree throughout exactly the runs in which no test is recorded again whose verdict has
calls linked to it. -/
theorem trail_count_consistent_iff (R : Reading ω) (as : List (Act ω)) :
    Always (step R) (fun _ _ t => t.CountsAgree) initial as ↔ Always (step R) (RecordsAfresh R) initial as := by
  refine always_iff_of_invariant (I := fun s => Sound s ∧ s.CountsAgree) ?_ ⟨sound_initial, ?_⟩
  · rintro s a t ⟨hs, hc⟩ h
    exact ⟨countsAgree_step_iff hs hc h, fun ht => ⟨hs.step h, ht⟩⟩
  · intro v hv
    cases hv

/-- A test is executed and recorded, then recorded again without another step. -/
def recordedTwice : List (Act Unit) := [castCall, verdictCall "echo" "passed", verdictCall "echo" "passed"]

theorem count_forgets_earlier_steps :
    ¬ Always (step plainReading) (fun _ _ t => t.CountsAgree) initial recordedTwice := by
  intro h
  have hrun : (exec (step plainReading) initial recordedTwice).bind (fun t => t.verdicts[0]?.map fun v =>
      (v.trailStepCount, t.linkedCount v.id)) = some (some 0, 1) := by decide +kernel
  obtain ⟨t, ht, hrest⟩ := Option.bind_eq_some_iff.mp hrun
  obtain ⟨v, hv, hcounts⟩ := Option.map_eq_some_iff.mp hrest
  obtain ⟨hcount, hlinked⟩ := Prod.mk.inj hcounts
  have hsnoc : recordedTwice = [castCall, verdictCall "echo" "passed"] ++ [verdictCall "echo" "passed"] := rfl
  rw [hsnoc] at ht h
  obtain ⟨u, hu, hlast⟩ := exec_snoc_iff.mp ht
  have hagree := h.at hu hlast v (List.mem_of_getElem? hv)
  rw [hcount, hlinked] at hagree
  cases hagree

end ReleaseValidation.AiAgent.Verdicts
