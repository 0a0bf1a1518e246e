import ReleaseValidation.AiAgent.Verdicts
import ReleaseValidation.Foundations.Runs

/-! # What the two tables keep

Audit rows and verdicts are numbered, a session has one verdict for a test, and a claim
names a verdict of the session of its call. A call adds at most one audit row, after the
claim of the verdict that it may record.
-/
namespace ReleaseValidation.AiAgent.Verdicts
open Store Serials Runs
variable {ω : Type} {R : Reading ω} {s t : State ω} {sid : ℕ} {slug : String} {vs : List VerdictRow}
  {row : ℕ → VerdictRow} {v v' : VerdictRow}

theorem isFor_iff : v.isFor sid slug = true ↔ v.sessionId = sid ∧ v.definitionSlug = slug := decide_eq_true_iff

theorem isFor_eq_false_iff : v.isFor sid slug = false ↔ ¬ (v.sessionId = sid ∧ v.definitionSlug = slug) :=
  decide_eq_false_iff_not

/-- The rows are numbered, and `uq_verdict_session_slug` holds. -/
structure Keyed (vs : List VerdictRow) : Prop where
  numbered : Numbered (·.id) vs
  unique : ∀ v ∈ vs, ∀ v' ∈ vs, v.sessionId = v'.sessionId → v.definitionSlug = v'.definitionSlug → v = v'

theorem keyed_nil : Keyed [] := ⟨numbered_nil, by intro v hv; cases hv⟩

theorem Keyed.append (h : Keyed vs) (hfree : ∀ v ∈ vs, v.isFor sid slug = false) (hid : v.id = vs.length)
    (hv : v.isFor sid slug = true) : Keyed (vs ++ [v]) := by
  have hnew : ∀ u ∈ vs, ¬ (u.sessionId = v.sessionId ∧ u.definitionSlug = v.definitionSlug) := by
    intro u hu hkey
    rw [(isFor_iff.mp hv).1, (isFor_iff.mp hv).2] at hkey
    exact isFor_eq_false_iff.mp (hfree u hu) hkey
  refine ⟨h.numbered.append hid, ?_⟩
  intro u hu u' hu' hs hd
  rcases List.mem_append.mp hu with hu | hu <;> rcases List.mem_append.mp hu' with hu' | hu'
  · exact h.unique u hu u' hu' hs hd
  · cases List.mem_singleton.mp hu'
    exact absurd ⟨hs, hd⟩ (hnew u hu)
  · cases List.mem_singleton.mp hu
    exact absurd ⟨hs.symm, hd.symm⟩ (hnew u' hu')
  · rw [List.mem_singleton.mp hu, List.mem_singleton.mp hu']

/-- The verdicts after an upsert, and the id of the row that it wrote. -/
structure Written (vs : List VerdictRow) (sid : ℕ) (slug : String) (row : ℕ → VerdictRow)
    (w : List VerdictRow × ℕ) : Prop where
  keyed : Keyed w.1
  mem : row w.2 ∈ w.1
  cases : ∀ v ∈ w.1, v = row w.2 ∨ v ∈ vs ∧ v.isFor sid slug = false
  others : ∀ v ∈ vs, v.isFor sid slug = false → v ∈ w.1
  same : ∀ v ∈ vs, v.isFor sid slug = true → v.id = w.2
  fresh : (∀ v ∈ vs, v.isFor sid slug = false) → w.2 = vs.length

theorem Keyed.overwrite {old : VerdictRow} (h : Keyed vs) (hold : old ∈ vs) (hfor : old.isFor sid slug = true)
    (hrow : ∀ id, (row id).id = id ∧ (row id).isFor sid slug = true) :
    Written vs sid slug row (updateWhere (·.isFor sid slug) (fun v => row v.id) vs, old.id) := by
  have hsame : ∀ v ∈ vs, v.isFor sid slug = true → v = old := by
    intro v hv hvfor
    obtain ⟨hs, hd⟩ := isFor_iff.mp hvfor
    obtain ⟨hs', hd'⟩ := isFor_iff.mp hfor
    exact h.unique v hv old hold (hs.trans hs'.symm) (hd.trans hd'.symm)
  have hcases : ∀ v ∈ updateWhere (·.isFor sid slug) (fun v => row v.id) vs,
      v = row old.id ∨ v ∈ vs ∧ v.isFor sid slug = false := by
    intro v hv
    obtain ⟨v₀, hv₀, rfl⟩ := mem_updateWhere.mp hv
    split
    next hp =>
      rw [hsame v₀ hv₀ hp]
      exact .inl rfl
    next hp => exact .inr ⟨hv₀, Bool.not_eq_true _ ▸ hp⟩
  refine ⟨⟨?_, ?_⟩, ?_, hcases, ?_, ?_, ?_⟩
  · exact h.numbered.updateWhere fun v _ => (hrow v.id).1
  · intro v hv v' hv' hs hd
    have hclash : ∀ u u' : VerdictRow, u.isFor sid slug = true → u'.isFor sid slug = false →
        u.sessionId = u'.sessionId → u.definitionSlug = u'.definitionSlug → False := by
      intro u u' hu hu' hus hud
      apply isFor_eq_false_iff.mp hu'
      rw [← hus, ← hud]
      exact isFor_iff.mp hu
    rcases hcases v hv with rfl | ⟨hv, hvfor⟩ <;> rcases hcases v' hv' with rfl | ⟨hv', hvfor'⟩
    · rfl
    · exact (hclash _ _ (hrow old.id).2 hvfor' hs hd).elim
    · exact (hclash _ _ (hrow old.id).2 hvfor hs.symm hd.symm).elim
    · exact h.unique v hv v' hv' hs hd
  · exact mem_updateWhere.mpr ⟨old, hold, by rw [if_pos hfor]⟩
  · intro v hv hvfor
    refine mem_updateWhere.mpr ⟨v, hv, ?_⟩
    rw [hvfor]
    rfl
  · intro v hv hvfor
    rw [hsame v hv hvfor]
  · intro hfree
    cases (hfree old hold).symm.trans hfor

theorem upsert_written (h : Keyed vs) (hrow : ∀ id, (row id).id = id ∧ (row id).isFor sid slug = true) :
    Written vs sid slug row (upsert vs sid slug row) := by
  unfold upsert
  split
  next old hfind =>
    have hold : old ∈ vs := List.mem_of_find?_eq_some hfind
    have hfor : old.isFor sid slug = true := List.find?_some hfind
    exact h.overwrite hold hfor hrow
  next hfind =>
    have hfree : ∀ v ∈ vs, v.isFor sid slug = false := by
      intro v hv
      exact Bool.not_eq_true _ ▸ List.find?_eq_none.mp hfind v hv
    refine ⟨h.append hfree (hrow _).1 (hrow _).2, List.mem_concat_self, ?_, ?_, ?_, fun _ => rfl⟩
    · intro v hv
      rcases List.mem_append.mp hv with hv | hv
      · exact .inr ⟨hv, hfree v hv⟩
      · exact .inl (List.mem_singleton.mp hv)
    · intro v hv _
      exact List.mem_append_left _ hv
    · intro v hv hvfor
      cases (hfree v hv).symm.trans hvfor

/-- Every verdict is still there, under its id and its key. -/
theorem Written.kept {w : List VerdictRow × ℕ} (h : Written vs sid slug row w)
    (hrow : ∀ id, (row id).id = id ∧ (row id).isFor sid slug = true) (hv : v ∈ vs) :
    ∃ v' ∈ w.1, v'.id = v.id ∧ v'.sessionId = v.sessionId ∧ v'.definitionSlug = v.definitionSlug := by
  cases hfor : v.isFor sid slug with
  | false => exact ⟨v, h.others v hv hfor, rfl, rfl, rfl⟩
  | true =>
    refine ⟨row w.2, h.mem, ?_, ?_, ?_⟩
    · rw [(hrow _).1, h.same v hv hfor]
    · rw [(isFor_iff.mp (hrow _).2).1, (isFor_iff.mp hfor).1]
    · rw [(isFor_iff.mp (hrow _).2).2, (isFor_iff.mp hfor).2]

theorem row_key (R : Reading ω) (sid : ℕ) (sub : Submission) (trail : Trail ω) (id : ℕ) :
    (sub.row R sid trail id).id = id ∧ (sub.row R sid trail id).isFor sid sub.definitionSlug = true :=
  ⟨rfl, isFor_iff.mpr ⟨rfl, rfl⟩⟩

theorem insertBlocked_cases (sid : ℕ) (vs : List VerdictRow) (slug : String) :
    State.insertBlocked sid vs slug = vs ∨ (∀ v ∈ vs, v.isFor sid slug = false) ∧
      State.insertBlocked sid vs slug = vs ++ [State.blockedRow sid slug vs.length] := by
  unfold State.insertBlocked
  split
  next => exact .inl rfl
  next hany =>
    refine .inr ⟨?_, rfl⟩
    intro v hv
    cases hfor : v.isFor sid slug with
    | false => rfl
    | true => exact absurd (List.any_eq_true.mpr ⟨v, hv, hfor⟩) hany

/-- The blocked rows come after the verdicts, which all stay. -/
theorem Keyed.foldl_insertBlocked (h : Keyed vs) (sid : ℕ) (slugs : List String) :
    Keyed (slugs.foldl (State.insertBlocked sid) vs) ∧
      (∀ v ∈ vs, v ∈ slugs.foldl (State.insertBlocked sid) vs) ∧
        ∀ v ∈ slugs.foldl (State.insertBlocked sid) vs, v ∈ vs ∨
          vs.length ≤ v.id ∧ ∃ slug ∈ slugs, v = State.blockedRow sid slug v.id := by
  induction slugs generalizing vs with
  | nil => exact ⟨h, fun v hv => hv, fun v hv => .inl hv⟩
  | cons slug slugs ih =>
    rw [List.foldl_cons]
    rcases insertBlocked_cases sid vs slug with he | ⟨hfree, he⟩
    · rw [he]
      obtain ⟨hkeyed, hkept, hnew⟩ := ih h
      refine ⟨hkeyed, hkept, fun v hv => (hnew v hv).imp_right ?_⟩
      rintro ⟨hle, slug', hslug', hrow⟩
      exact ⟨hle, slug', List.mem_cons_of_mem _ hslug', hrow⟩
    · rw [he]
      have hkey : (State.blockedRow sid slug vs.length).isFor sid slug = true := isFor_iff.mpr ⟨rfl, rfl⟩
      obtain ⟨hkeyed, hkept, hnew⟩ := ih (h.append hfree rfl hkey)
      refine ⟨hkeyed, fun v hv => hkept v (List.mem_append_left _ hv), ?_⟩
      intro v hv
      rcases hnew v hv with hmem | ⟨hle, slug', hslug', hrow⟩
      · rcases List.mem_append.mp hmem with hmem | hmem
        · exact .inl hmem
        · obtain rfl := List.mem_singleton.mp hmem
          exact .inr ⟨Nat.le_refl _, slug, List.mem_cons_self, rfl⟩
      · rw [List.length_append] at hle
        exact .inr ⟨Nat.le_of_add_right_le hle, slug', List.mem_cons_of_mem _ hslug', hrow⟩

theorem recordMissingVerdicts_invocations (s : State ω) (sid : ℕ) (mode : ExecutionMode) (selected : List String)
    (committed : Bool) : (s.recordMissingVerdicts sid mode selected committed).invocations = s.invocations := by
  unfold State.recordMissingVerdicts
  split <;> rfl

theorem recordMissingVerdicts_verdicts (s : State ω) (sid : ℕ) (mode : ExecutionMode) (selected : List String)
    (committed : Bool) :
    ∃ slugs : List String, (s.recordMissingVerdicts sid mode selected committed).verdicts =
      slugs.foldl (State.insertBlocked sid) s.verdicts := by
  unfold State.recordMissingVerdicts
  split
  next => exact ⟨[], rfl⟩
  next => exact ⟨_, rfl⟩

theorem bind_not_recorded {α : Type} {x : Except Answer α} {f : α → Except Answer Submission} {v : VerdictRow}
    (hx : x ≠ .error (.recorded v)) (hf : ∀ a, f a ≠ .error (.recorded v)) : x >>= f ≠ .error (.recorded v) := by
  cases x with
  | error e => exact fun h => hx (congrArg Except.error (Except.error.inj h))
  | ok a => exact hf a

theorem require_not_recorded (input : ToolInput) (key : String) (v : VerdictRow) :
    require input key ≠ .error (.recorded v) := by
  unfold require
  split <;> intro h <;> cases h

theorem nonBlank_not_recorded (j : Json) (v : VerdictRow) : nonBlank j ≠ .error (.recorded v) := by
  unfold nonBlank
  split
  next => intro h; cases h
  next => split <;> intro h <;> cases h

/-- The checks never answer with a recorded verdict. -/
theorem submission_not_recorded (R : Reading ω) (input : ToolInput) (v : VerdictRow) :
    submission R input ≠ .error (.recorded v) := by
  apply bind_not_recorded (require_not_recorded _ _ v)
  intro slug
  apply bind_not_recorded (require_not_recorded _ _ v)
  intro verdict
  apply bind_not_recorded (require_not_recorded _ _ v)
  intro reasoning
  cases Verdict.parse verdict with
  | none => intro h; cases h
  | some verdict =>
    apply bind_not_recorded (nonBlank_not_recorded slug v)
    intro slug
    cases slug with
    | none => intro h; cases h
    | some slug =>
      apply bind_not_recorded (nonBlank_not_recorded reasoning v)
      intro reasoning
      cases reasoning <;> intro h <;> cases h

/-- What a call adds to the audit. -/
def auditRows (s : State ω) (c : Call ω) (db : Database) : List (Invocation ω) :=
  if db.audited then [⟨s.invocations.length, c.sessionId, c.toolName, c.input, c.content, none, db.now⟩] else []

theorem recordInvocation_invocations (s : State ω) (c : Call ω) (db : Database) :
    (s.recordInvocation c db).invocations = s.invocations ++ auditRows s c db := by
  unfold State.recordInvocation auditRows
  split
  next => rfl
  next => exact (List.append_nil _).symm

@[simp] theorem recordInvocation_verdicts (c : Call ω) (db : Database) :
    (s.recordInvocation c db).verdicts = s.verdicts := by
  unfold State.recordInvocation
  split <;> rfl

theorem recordTestVerdict_cases (R : Reading ω) (s : State ω) (sid : ℕ) (input : ToolInput) (db : Database) :
    (∃ sub, s.recordTestVerdict R sid input db = (.recorded (s.recordVerdict R sid sub).1, (s.recordVerdict R sid sub).2)) ∨
      ∃ answer, (∀ v, answer ≠ .recorded v) ∧ s.recordTestVerdict R sid input db = (answer, s) := by
  unfold State.recordTestVerdict
  cases hsub : submission R input with
  | error answer =>
    refine .inr ⟨answer, ?_, rfl⟩
    rintro v rfl
    exact submission_not_recorded R input v hsub
  | ok sub =>
    dsimp only
    split
    next => exact .inr ⟨_, (by intro v h; cases h), rfl⟩
    next =>
      split
      next => exact .inr ⟨_, (by intro v h; cases h), rfl⟩
      next => exact .inl ⟨sub, rfl⟩

/-- A call records a verdict, or leaves the verdicts and the claims alone. -/
theorem execute_cases (R : Reading ω) (s : State ω) (c : Call ω) (db : Database) :
    (∃ sub, c.toolName = "record_test_verdict" ∧
      s.execute R c db = (.recorded (s.recordVerdict R c.sessionId sub).1,
        (s.recordVerdict R c.sessionId sub).2.recordInvocation c db)) ∨
    ∃ answer, (∀ v, answer ≠ .recorded v) ∧ s.execute R c db = (answer, s.recordInvocation c db) := by
  unfold State.execute State.dispatch
  split
  next htool =>
    rcases recordTestVerdict_cases R s c.sessionId c.input db with ⟨sub, he⟩ | ⟨answer, hanswer, he⟩
    · rw [he]
      exact .inl ⟨sub, htool, rfl⟩
    · rw [he]
      exact .inr ⟨answer, hanswer, rfl⟩
  next => exact .inr ⟨.returned, (by intro v h; cases h), rfl⟩

/-- What holds of the tables in every state that is reached. -/
structure Sound (s : State ω) : Prop where
  keyed : Keyed s.verdicts
  numbered : Numbered (·.id) s.invocations
  claims : ∀ inv ∈ s.invocations, ∀ id ∈ inv.verdictId, ∃ v ∈ s.verdicts, v.id = id ∧ v.sessionId = inv.sessionId

theorem sound_initial : Sound (initial : State ω) := ⟨keyed_nil, numbered_nil, by intro inv h; cases h⟩

theorem Sound.recordInvocation (h : Sound s) (c : Call ω) (db : Database) : Sound (s.recordInvocation c db) := by
  unfold State.recordInvocation
  split
  next =>
    refine ⟨h.keyed, h.numbered.append rfl, ?_⟩
    intro inv hinv id hid
    rcases List.mem_append.mp hinv with hinv | hinv
    · exact h.claims inv hinv id hid
    · rw [List.mem_singleton.mp hinv] at hid
      cases hid
  next => exact h

/-- A row that is linked has been a row of the trail, which no verdict had claimed. -/
theorem mem_claimTrail {invs : List (Invocation ω)} {inv : Invocation ω} (h : inv ∈ (claimTrail R invs sid).steps) :
    inv ∈ invs ∧ inv.claimable sid = true := by
  have hrows := List.mem_of_mem_take (List.mem_of_mem_take h)
  exact List.mem_filter.mp ((List.mem_insertionSort _).mp hrows)

theorem claimable_iff {inv : Invocation ω} : inv.claimable sid = true ↔
    inv.sessionId = sid ∧ inv.verdictId = none ∧ inv.toolName ∉ bookkeepingTools := by
  unfold Invocation.claimable
  rw [Bool.and_eq_true, Bool.and_eq_true, decide_eq_true_iff, decide_eq_true_iff, Option.isNone_iff_eq_none,
    and_assoc]

/-- The row of an id in the trail is the row of the trail. -/
theorem Sound.claimable_of_id_mem (h : Sound s) {inv : Invocation ω} (hinv : inv ∈ s.invocations)
    (hid : inv.id ∈ (claimTrail R s.invocations sid).steps.map (·.id)) : inv ∈ (claimTrail R s.invocations sid).steps := by
  obtain ⟨inv', hinv', he⟩ := List.mem_map.mp hid
  rw [← h.numbered.eq_of_key (mem_claimTrail hinv').1 hinv he]
  exact hinv'

theorem Sound.recordVerdict (h : Sound s) (sid : ℕ) (sub : Submission) : Sound (s.recordVerdict R sid sub).2 := by
  have hw := upsert_written h.keyed (row_key R sid sub (claimTrail R s.invocations sid))
  refine ⟨hw.keyed, h.numbered.updateWhere fun inv _ => rfl, ?_⟩
  intro inv hinv id hid
  obtain ⟨inv₀, hinv₀, rfl⟩ := mem_updateWhere.mp hinv
  split at hid
  next hp =>
    rw [if_pos hp]
    rw [Bool.and_eq_true, decide_eq_true_iff] at hp
    cases hid
    have hmem := h.claimable_of_id_mem hinv₀ hp.1
    exact ⟨_, hw.mem, rfl, (claimable_iff.mp (mem_claimTrail hmem).2).1.symm⟩
  next hp =>
    rw [if_neg hp]
    obtain ⟨v, hv, rfl, hs⟩ := h.claims inv₀ hinv₀ id hid
    obtain ⟨v', hv', hid', hs', -⟩ := hw.kept (row_key R sid sub _) hv
    exact ⟨v', hv', hid', hs'.trans hs⟩

theorem Sound.recordMissingVerdicts (h : Sound s) (mode : ExecutionMode) (selected : List String) (committed : Bool) :
    Sound (s.recordMissingVerdicts sid mode selected committed) := by
  obtain ⟨slugs, he⟩ := recordMissingVerdicts_verdicts s sid mode selected committed
  obtain ⟨hkeyed, hkept, -⟩ := h.keyed.foldl_insertBlocked sid slugs
  refine ⟨he ▸ hkeyed, ?_, ?_⟩
  · rw [recordMissingVerdicts_invocations]
    exact h.numbered
  · rw [recordMissingVerdicts_invocations, he]
    intro inv hinv id hid
    obtain ⟨v, hv, hrest⟩ := h.claims inv hinv id hid
    exact ⟨v, hkept v hv, hrest⟩

theorem Sound.step {a : Act ω} (h : Sound s) (hstep : step R s a = some t) : Sound t := by
  cases a with
  | execute c db =>
    cases hstep
    rcases execute_cases R s c db with ⟨sub, -, he⟩ | ⟨answer, -, he⟩
    · rw [he]
      exact (h.recordVerdict c.sessionId sub).recordInvocation c db
    · rw [he]
      exact h.recordInvocation c db
  | recordMissing sid mode selected committed =>
    cases hstep
    exact h.recordMissingVerdicts mode selected committed

theorem sound_of_exec {as : List (Act ω)} (h : exec (step R) initial as = some s) : Sound s :=
  exec_invariant (fun _ _ _ hu ht => hu.step ht) sound_initial h

end ReleaseValidation.AiAgent.Verdicts
