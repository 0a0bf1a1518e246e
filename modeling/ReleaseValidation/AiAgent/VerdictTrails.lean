import ReleaseValidation.AiAgent.VerdictInvariant

/-! # Which calls a verdict claims

A verdict that says passed or failed claims a call that no verdict has claimed before,
and a claim is never moved. Between two verdicts of a session the calls accumulate, and
the second verdict claims them all as long as they are no more than the cap; what is
beyond the cap stays for the verdict after it.
-/
namespace ReleaseValidation.AiAgent.Verdicts
open Store Serials Runs
variable {ω : Type} {R : Reading ω} {s t : State ω} {sid : ℕ}

/-- A verdict that is recorded as passed or failed claims a call of its session that had been
audited and that no verdict had claimed. -/
def DecisiveClaims (R : Reading ω) (s : State ω) (a : Act ω) (t : State ω) : Prop :=
  ∀ c db row, a = .execute c db → (s.execute R c db).1 = .recorded row → row ∈ t.verdicts ∧
    (row.verdict.decisive = true → ∃ inv ∈ s.invocations, inv.sessionId = c.sessionId ∧ inv.verdictId = none ∧
      { inv with verdictId := some row.id } ∈ t.invocations)

def ClaimsKept (s : State ω) (_ : Act ω) (t : State ω) : Prop :=
  ∀ inv ∈ s.invocations, inv.verdictId ≠ none → inv ∈ t.invocations

/-- A call has one claim at most, of a verdict of its session. -/
def State.ClaimedOnce (s : State ω) : Prop :=
  (∀ inv ∈ s.invocations, ∀ inv' ∈ s.invocations, inv.id = inv'.id → inv.verdictId = inv'.verdictId) ∧
    ∀ inv ∈ s.invocations, ∀ id ∈ inv.verdictId, ∃ v ∈ s.verdicts, v.id = id ∧ v.sessionId = inv.sessionId

theorem recordVerdict_decisive {sub : Submission} (h : (s.recordVerdict R sid sub).1.verdict.decisive = true) :
    (claimTrail R s.invocations sid).steps ≠ [] := by
  intro hnil
  change (sub.gate (claimTrail R s.invocations sid)).decisive = true at h
  unfold Submission.gate at h
  rw [hnil] at h
  split at h
  next => cases h
  next hnot => exact hnot ⟨h, rfl⟩

theorem mem_link {invs : List (Invocation ω)} {inv : Invocation ω} {v : ℕ} {ids : List ℕ} (h : inv ∈ invs)
    (hid : inv.id ∈ ids) (hnone : inv.verdictId = none) : { inv with verdictId := some v } ∈ link invs v ids := by
  refine mem_updateWhere.mpr ⟨inv, h, ?_⟩
  rw [if_pos (by rw [Bool.and_eq_true, decide_eq_true_iff, hnone]; exact ⟨hid, rfl⟩)]

theorem mem_link_of_claimed {invs : List (Invocation ω)} {inv : Invocation ω} {v : ℕ} {ids : List ℕ} (h : inv ∈ invs)
    (hclaimed : inv.verdictId ≠ none) : inv ∈ link invs v ids := by
  refine mem_updateWhere.mpr ⟨inv, h, if_neg ?_⟩
  rw [Bool.and_eq_true, Option.isNone_iff_eq_none]
  exact fun hp => hclaimed hp.2

theorem decisiveClaims_of_step {a : Act ω} (hs : Sound s) (h : step R s a = some t) : DecisiveClaims R s a t := by
  rintro c db row rfl hrow
  cases h
  rcases execute_cases R s c db with ⟨sub, -, he⟩ | ⟨answer, hanswer, he⟩
  · rw [he] at hrow ⊢
    cases hrow
    have hw := upsert_written hs.keyed (row_key R c.sessionId sub (claimTrail R s.invocations c.sessionId))
    refine ⟨by rw [recordInvocation_verdicts]; exact hw.mem, ?_⟩
    intro hdecisive
    obtain ⟨inv, hinv⟩ := List.exists_mem_of_ne_nil _ (recordVerdict_decisive hdecisive)
    obtain ⟨hmem, hclaimable⟩ := mem_claimTrail hinv
    obtain ⟨hsession, hnone, -⟩ := claimable_iff.mp hclaimable
    refine ⟨inv, hmem, hsession, hnone, ?_⟩
    rw [recordInvocation_invocations]
    exact List.mem_append_left _ (mem_link hmem (List.mem_map_of_mem hinv) hnone)
  · rw [he] at hrow
    exact absurd hrow (hanswer row)

theorem claimsKept_of_step {a : Act ω} (h : step R s a = some t) : ClaimsKept s a t := by
  intro inv hinv hclaimed
  cases a with
  | execute c db =>
    cases h
    rcases execute_cases R s c db with ⟨sub, -, he⟩ | ⟨answer, -, he⟩
    · rw [he, recordInvocation_invocations]
      exact List.mem_append_left _ (mem_link_of_claimed hinv hclaimed)
    · rw [he, recordInvocation_invocations]
      exact List.mem_append_left _ hinv
  | recordMissing sid mode selected committed =>
    cases h
    rw [recordMissingVerdicts_invocations]
    exact hinv

theorem verdict_evidence_gate (R : Reading ω) (as : List (Act ω)) :
    Always (step R) (DecisiveClaims R) initial as ∧ Always (step R) ClaimsKept initial as ∧
      ∀ t, exec (step R) initial as = some t → t.ClaimedOnce := by
  refine ⟨?_, ?_, ?_⟩
  · refine always_of_invariant (I := Sound) (Q := fun _ _ _ => True) ?_ sound_initial (always_of_forall ?_)
    · intro s a t hs h _
      exact ⟨decisiveClaims_of_step hs h, hs.step h⟩
    · intros
      trivial
  · apply always_of_forall
    intro pre a post s t _ _ h
    exact claimsKept_of_step h
  · intro t ht
    have hs := sound_of_exec ht
    refine ⟨?_, hs.claims⟩
    intro inv hinv inv' hinv' he
    rw [hs.numbered.eq_of_key hinv hinv' he]

/-! ## What accumulates between two verdicts -/

/-- The calls that a step claims. -/
def claimedIds (s t : State ω) : List ℕ :=
  ((s.invocations.zip t.invocations).filter fun p => p.1.verdictId.isNone && p.2.verdictId.isSome).map (·.1.id)

/-- The calls of the session that a step audits, without those of the bookkeeping tools. -/
def auditedIds (sid : ℕ) (s t : State ω) : List ℕ :=
  ((t.invocations.drop s.invocations.length).filter fun inv =>
    decide (inv.sessionId = sid ∧ inv.toolName ∉ bookkeepingTools)).map (·.id)

/-- The answer says that a verdict of the session has been recorded. -/
def Answer.records (sid : ℕ) : Answer → Bool
  | .recorded row => decide (row.sessionId = sid)
  | _ => false

def Records (R : Reading ω) (sid : ℕ) (s : State ω) : Act ω → Bool
  | .execute c db => (s.execute R c db).1.records sid
  | .recordMissing _ _ _ _ => false

/-- One recorded verdict. -/
structure Recording where
  claimed : List ℕ
  /-- The calls audited since the verdict before it. -/
  since : List ℕ
  deriving DecidableEq, Repr

/-- The recorded verdicts of the session in the run, in their order. -/
def recordings (R : Reading ω) (sid : ℕ) : List ℕ → State ω → List (Act ω) → List Recording
  | _, _, [] => []
  | since, s, a :: as =>
    match step R s a with
    | none => []
    | some t =>
      if Records R sid s a then ⟨claimedIds s t, since⟩ :: recordings R sid (auditedIds sid s t) t as
      else recordings R sid (since ++ auditedIds sid s t) t as

def pendingIds (sid : ℕ) (s : State ω) : List ℕ := (s.invocations.filter (·.claimable sid)).map (·.id)

theorem pendingIds_step {invs rest : List (Invocation ω)} {ids : List ℕ} (ht : t.invocations = invs ++ rest)
    (hlen : invs.length = s.invocations.length) (hids : (invs.filter (·.claimable sid)).map (·.id) = ids)
    (hrest : ∀ inv ∈ rest, inv.verdictId = none) : pendingIds sid t = ids ++ auditedIds sid s t := by
  unfold pendingIds auditedIds
  rw [ht, List.filter_append, List.map_append, hids, ← hlen, List.drop_left]
  congr 2
  apply List.filter_congr
  intro inv hinv
  rw [Bool.eq_iff_iff, claimable_iff, decide_eq_true_iff, hrest inv hinv]
  exact ⟨fun h => ⟨h.1, h.2.2⟩, fun h => ⟨h.1, rfl, h.2⟩⟩

theorem auditRows_unclaimed {c : Call ω} {db : Database} : ∀ inv ∈ auditRows s c db, inv.verdictId = none := by
  intro inv hinv
  unfold auditRows at hinv
  split at hinv
  · rw [List.mem_singleton.mp hinv]
  · cases hinv

theorem steps_eq (R : Reading ω) (sid : ℕ) (invs : List (Invocation ω)) : (claimTrail R invs sid).steps =
    ((invs.filter (·.claimable sid)).insertionSort (·.createdAt ≤ ·.createdAt)).take trailCap := by
  change List.take trailCap (List.take (trailCap + 1) _) = _
  rw [List.take_take, Nat.min_eq_left (Nat.le_succ _)]

theorem length_steps (R : Reading ω) (sid : ℕ) (s : State ω) :
    (claimTrail R s.invocations sid).steps.length = min trailCap (pendingIds sid s).length := by
  unfold pendingIds
  rw [steps_eq, List.length_take, List.length_insertionSort, List.length_map]

/-- Within the cap the trail is everything that is pending. -/
theorem mem_claimTrail_iff (hcap : (pendingIds sid s).length ≤ trailCap) {inv : Invocation ω} :
    inv ∈ (claimTrail R s.invocations sid).steps ↔ inv ∈ s.invocations ∧ inv.claimable sid = true := by
  refine ⟨mem_claimTrail, ?_⟩
  intro h
  unfold pendingIds at hcap
  rw [List.length_map] at hcap
  rw [steps_eq, List.take_of_length_le (by rw [List.length_insertionSort]; exact hcap), List.mem_insertionSort]
  exact List.mem_filter.mpr h

/-- The condition of the update that links the trail. -/
def linked (R : Reading ω) (sid : ℕ) (s : State ω) (inv : Invocation ω) : Bool :=
  decide (inv.id ∈ (claimTrail R s.invocations sid).steps.map (·.id)) && inv.verdictId.isNone

theorem Sound.linked_iff (h : Sound s) {inv : Invocation ω} (hinv : inv ∈ s.invocations) :
    linked R sid s inv = true ↔ inv ∈ (claimTrail R s.invocations sid).steps := by
  unfold linked
  rw [Bool.and_eq_true, decide_eq_true_iff, Option.isNone_iff_eq_none]
  constructor
  · rintro ⟨hid, -⟩
    exact h.claimable_of_id_mem hinv hid
  · intro hmem
    exact ⟨List.mem_map_of_mem hmem, (claimable_iff.mp (mem_claimTrail hmem).2).2.1⟩

theorem recordVerdict_invocations (sub : Submission) : (s.recordVerdict R sid sub).2.invocations =
    updateWhere (linked R sid s) (fun inv => { inv with verdictId := some (s.recordVerdict R sid sub).1.id })
      s.invocations := rfl

theorem claimedIds_of_link {v : ℕ} {rest : List (Invocation ω)} {p : Invocation ω → Bool}
    (hp : ∀ inv, p inv = true → inv.verdictId = none)
    (ht : t.invocations = updateWhere p (fun inv => { inv with verdictId := some v }) s.invocations ++ rest) :
    claimedIds s t = (s.invocations.filter p).map (·.id) := by
  unfold claimedIds
  rw [ht, zip_updateWhere_append, List.filter_map, List.map_map]
  congr 1
  apply List.filter_congr
  intro inv _
  rw [Function.comp_apply]
  dsimp only
  split
  next h =>
    rw [h, hp inv h]
    rfl
  next h =>
    rw [Bool.not_eq_true] at h
    rw [h]
    cases inv.verdictId <;> rfl

theorem linked_unclaimed {inv : Invocation ω} (h : linked R sid s inv = true) : inv.verdictId = none := by
  rw [linked, Bool.and_eq_true] at h
  exact Option.isNone_iff_eq_none.mp h.2

/-- As many calls are claimed as the trail has steps. -/
theorem Sound.length_linked (h : Sound s) (R : Reading ω) (sid : ℕ) :
    (s.invocations.filter (linked R sid s)).length = (claimTrail R s.invocations sid).steps.length := by
  have hnodup : s.invocations.Nodup := List.Nodup.of_map _ h.numbered.nodup
  have hsorted : (claimTrail R s.invocations sid).steps.Nodup := by
    rw [steps_eq]
    apply List.Nodup.sublist (List.take_sublist _ _)
    exact (List.perm_insertionSort _ _).nodup_iff.mpr (hnodup.filter _)
  apply List.Perm.length_eq
  apply (List.perm_ext_iff_of_nodup (hnodup.filter _) hsorted).mpr
  intro inv
  rw [List.mem_filter]
  constructor
  · rintro ⟨hinv, hlinked⟩
    exact (h.linked_iff hinv).mp hlinked
  · intro hmem
    have hinv := (mem_claimTrail hmem).1
    exact ⟨hinv, (h.linked_iff hinv).mpr hmem⟩

/-- A verdict claims all that is pending exactly when that is within the cap. -/
theorem Sound.linked_eq_pending_iff (h : Sound s) (R : Reading ω) (sid : ℕ) :
    (s.invocations.filter (linked R sid s)).map (·.id) = pendingIds sid s ↔ (pendingIds sid s).length ≤ trailCap := by
  constructor
  · intro he
    have hlength := congrArg List.length he
    rw [List.length_map, h.length_linked, length_steps] at hlength
    exact hlength ▸ Nat.min_le_left _ _
  · intro hcap
    unfold pendingIds
    congr 1
    apply List.filter_congr
    intro inv hinv
    rw [Bool.eq_iff_iff, h.linked_iff hinv, mem_claimTrail_iff hcap]
    exact ⟨And.right, fun hclaimable => ⟨hinv, hclaimable⟩⟩

/-- After a verdict that claimed all, nothing is pending. -/
theorem Sound.pending_after_link (h : Sound s) (hcap : (pendingIds sid s).length ≤ trailCap) (v : ℕ) :
    (updateWhere (linked R sid s) (fun inv => { inv with verdictId := some v }) s.invocations).filter
      (·.claimable sid) = [] := by
  rw [List.filter_eq_nil_iff]
  intro inv hinv hclaimable
  obtain ⟨inv₀, hinv₀, rfl⟩ := mem_updateWhere.mp hinv
  split at hclaimable
  next => cases (claimable_iff.mp hclaimable).2.1
  next hlinked => exact hlinked ((h.linked_iff hinv₀).mpr ((mem_claimTrail_iff hcap).mpr ⟨hinv₀, hclaimable⟩))

theorem records_eq_false {answer : Answer} (h : ∀ v, answer ≠ .recorded v) (sid : ℕ) : answer.records sid = false := by
  cases answer with
  | recorded row => exact absurd rfl (h row)
  | _ => rfl

theorem Records.cases {a : Act ω} (h : step R s a = some t) (hrec : Records R sid s a = true) :
    ∃ (c : Call ω) (db : Database) (sub : Submission), c.toolName = "record_test_verdict" ∧
      t = (s.recordVerdict R sid sub).2.recordInvocation c db := by
  cases a with
  | execute c db =>
    cases h
    change (s.execute R c db).1.records sid = true at hrec
    rcases execute_cases R s c db with ⟨sub, htool, he⟩ | ⟨answer, hanswer, he⟩
    · rw [he] at hrec ⊢
      obtain rfl : c.sessionId = sid := of_decide_eq_true hrec
      exact ⟨c, db, sub, htool, rfl⟩
    · rw [he, records_eq_false hanswer] at hrec
      cases hrec
  | recordMissing => cases hrec

theorem pendingIds_of_not_records {a : Act ω} (hs : Sound s) (h : step R s a = some t)
    (hrec : Records R sid s a = false) : pendingIds sid t = pendingIds sid s ++ auditedIds sid s t := by
  cases a with
  | execute c db =>
    cases h
    change (s.execute R c db).1.records sid = false at hrec
    rcases execute_cases R s c db with ⟨sub, -, he⟩ | ⟨answer, -, he⟩
    · rw [he] at hrec ⊢
      have hother : c.sessionId ≠ sid := of_decide_eq_false hrec
      refine pendingIds_step (recordInvocation_invocations _ c db) length_updateWhere ?_ auditRows_unclaimed
      rw [recordVerdict_invocations, filter_updateWhere]
      · rfl
      · intro inv hinv hlinked
        have hsession := (claimable_iff.mp (mem_claimTrail ((hs.linked_iff hinv).mp hlinked)).2).1
        constructor
        · apply Bool.eq_false_iff.mpr
          intro hclaimable
          exact hother (hsession.symm.trans (claimable_iff.mp hclaimable).1)
        · apply Bool.eq_false_iff.mpr
          intro hclaimable
          cases (claimable_iff.mp hclaimable).2.1
    · rw [he]
      exact pendingIds_step (recordInvocation_invocations s c db) rfl rfl auditRows_unclaimed
  | recordMissing sid' mode selected committed =>
    cases h
    have hinvs := recordMissingVerdicts_invocations s sid' mode selected committed
    apply pendingIds_step (hinvs.trans (List.append_nil _).symm) rfl rfl
    intro inv hinv
    cases hinv

/-- What the recorded verdict claims, and what is pending after it. -/
theorem records_spec (hs : Sound s) {a : Act ω} (h : step R s a = some t) (hrec : Records R sid s a = true) :
    (claimedIds s t = pendingIds sid s ↔ (pendingIds sid s).length ≤ trailCap) ∧
      ((pendingIds sid s).length ≤ trailCap → pendingIds sid t = auditedIds sid s t) := by
  obtain ⟨c, db, sub, htool, rfl⟩ := Records.cases h hrec
  have hinvs := recordInvocation_invocations (s.recordVerdict R sid sub).2 c db
  constructor
  · rw [claimedIds_of_link (fun inv => linked_unclaimed) hinvs]
    exact hs.linked_eq_pending_iff R sid
  · intro hcap
    refine (pendingIds_step hinvs length_updateWhere ?_ auditRows_unclaimed).trans (List.nil_append _)
    rw [recordVerdict_invocations, hs.pending_after_link hcap]
    rfl

theorem recordings_cons {a : Act ω} (h : step R s a = some t) (since : List ℕ) (as : List (Act ω)) :
    recordings R sid since s (a :: as) =
      if Records R sid s a then ⟨claimedIds s t, since⟩ :: recordings R sid (auditedIds sid s t) t as
      else recordings R sid (since ++ auditedIds sid s t) t as := by
  rw [recordings, h]

theorem step_total (R : Reading ω) (s : State ω) (a : Act ω) : ∃ t, step R s a = some t := by
  cases a <;> exact ⟨_, rfl⟩

/-- Each verdict claims what has accumulated if that is always within the cap; the first one for which
it is more claims less. -/
theorem recordings_exact_iff (as : List (Act ω)) {since : List ℕ} (hs : Sound s) (hp : pendingIds sid s = since) :
    (∀ r ∈ recordings R sid since s as, r.claimed = r.since) ↔
      ∀ r ∈ recordings R sid since s as, r.since.length ≤ trailCap := by
  induction as generalizing s since with
  | nil =>
    have hnil : recordings R sid since s [] = [] := by rw [recordings]
    rw [hnil]
    exact iff_of_true (List.forall_mem_nil _) (List.forall_mem_nil _)
  | cons a as ih =>
    obtain ⟨t, h⟩ := step_total R s a
    rw [recordings_cons h]
    split
    next hrec =>
      obtain ⟨hclaimed, hafter⟩ := records_spec hs h hrec
      rw [hp] at hclaimed hafter
      rw [List.forall_mem_cons, List.forall_mem_cons]
      by_cases hcap : since.length ≤ trailCap
      · exact and_congr hclaimed (ih (hs.step h) (hafter hcap))
      · exact ⟨fun hall => absurd (hclaimed.mp hall.1) hcap, fun hall => absurd hall.1 hcap⟩
    next hrec =>
      rw [Bool.not_eq_true] at hrec
      apply ih (hs.step h)
      rw [pendingIds_of_not_records hs h hrec, hp]

/-- The verdicts of a session claim exactly the calls audited since the verdict before, throughout the
runs in which these are never more than the cap. -/
theorem trail_attribution_exact_iff (R : Reading ω) (sid : ℕ) (as : List (Act ω)) :
    (∀ r ∈ recordings R sid [] initial as, r.claimed = r.since) ↔
      ∀ r ∈ recordings R sid [] initial as, r.since.length ≤ trailCap := recordings_exact_iff as sound_initial rfl

/-! ## More calls than the cap -/

/-- A reading for examples. -/
def plainReading : Reading Unit where
  str
    | .str s => s
    | _ => ""
  repr
    | .str s => s
    | _ => ""
  float
    | .float x => some x
    | .int n => some n
    | _ => none
  evidenceValidated _ _ := false

def database : Database := ⟨true, true, true, 0⟩

def castCall : Act Unit := .execute ⟨0, "run_cast_command", [("command", .str "block-number")], ()⟩ database

def verdictCall (slug verdict : String) : Act Unit :=
  .execute ⟨0, "record_test_verdict",
    [("definition_slug", .str slug), ("verdict", .str verdict), ("reasoning", .str "as expected")], ()⟩ database

/-- Calls accumulate one by one. -/
theorem recordings_replicate (n : ℕ) (s : State Unit) (since : List ℕ) (as : List (Act Unit)) :
    ∃ (t : State Unit) (since' : List ℕ), since'.length = since.length + n ∧
      recordings plainReading 0 since s (List.replicate n castCall ++ as) = recordings plainReading 0 since' t as := by
  induction n generalizing s since with
  | zero => exact ⟨s, since, rfl, rfl⟩
  | succ n ih =>
    obtain ⟨u, hu⟩ := step_total plainReading s castCall
    have hone : (auditedIds 0 s u).length = 1 := by
      cases hu
      change (List.map _ (List.filter _ (List.drop _ (s.invocations ++ [_])))).length = 1
      rw [List.drop_left]
      rfl
    obtain ⟨t, since', hlen, he⟩ := ih u (since ++ auditedIds 0 s u)
    refine ⟨t, since', ?_, ?_⟩
    · rw [hlen, List.length_append, hone]
      omega
    · rw [List.replicate_succ, List.cons_append, recordings_cons hu]
      exact he

def tooManyCalls : List (Act Unit) := List.replicate 401 castCall ++ [verdictCall "echo" "passed"]

theorem steps_left_for_the_next_verdict :
    ¬ ∀ r ∈ recordings plainReading 0 [] initial tooManyCalls, r.claimed = r.since := by
  intro hexact
  have hp : pendingIds 0 (initial : State Unit) = [] := rfl
  have h := (recordings_exact_iff tooManyCalls sound_initial hp).mp hexact
  obtain ⟨t, since, hlen, he⟩ := recordings_replicate 401 initial [] [verdictCall "echo" "passed"]
  obtain ⟨u, hu⟩ := step_total plainReading t (verdictCall "echo" "passed")
  have hrec : Records plainReading 0 t (verdictCall "echo" "passed") = true := rfl
  rw [tooManyCalls, he, recordings_cons hu, if_pos hrec] at h
  have hcap := h _ List.mem_cons_self
  rw [hlen] at hcap
  exact absurd hcap (by decide)

end ReleaseValidation.AiAgent.Verdicts
