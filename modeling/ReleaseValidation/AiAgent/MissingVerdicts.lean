import ReleaseValidation.AiAgent.VerdictTrails

/-! # Verdicts on the selected tests of a manual session

A session that executes tests itself has to leave a verdict on each selected test. The
agent records them by its calls; `run_autonomous` writes blocked verdicts for the rest
before it saves the session, whether its loop returns or raises. The other modes, and
the handler of a failed bootstrap, save the session without that.
-/
namespace ReleaseValidation.AiAgent
variable {φ : Type}

namespace Phase

/-- The agent has not been asked to do anything yet. -/
def early : Phase φ → Bool
  | .queued | .bootstrapping | .activating _ | .preparing _ | .saving .interim _ | .saving .bootstrapFailed _ => true
  | _ => false

/-- In `run_autonomous` from its loop on, until the handler of the loop has saved the session. -/
def looping : Phase φ → Bool
  | .running | .crashed | .finished | .saving .crashed _ => true
  | _ => false

/-- In the message loop of the other modes. -/
def talking : Phase φ → Bool
  | .kickoff | .listening | .answering | .closing => true
  | _ => false

/-- The missing verdicts have been recorded, if the session is autonomous. -/
def filled : Phase φ → Bool
  | .saving .completed _ | .saving .crashed _ => true
  | _ => false

end Phase

namespace Session
variable {x y : Session φ} {findings gs : List φ} {e : Event φ}

theorem cancel_phase (x : Session φ) : x.cancel.phase = x.phase ∧ x.cancel.request = x.request := by
  unfold cancel
  split <;> exact ⟨rfl, rfl⟩

/-- No event changes what the session has been asked for. -/
theorem Moves.request (h : x.Moves findings e y gs) : y.request.mode = x.request.mode ∧
    y.request.executionMode = x.request.executionMode ∧ y.request.selectedTests = x.request.selectedTests := by
  cases h with
  | cancel =>
    rw [(cancel_phase x).2]
    exact ⟨rfl, rfl, rfl⟩
  | _ => exact ⟨rfl, rfl, rfl⟩

theorem Moves.early (h : x.Moves findings e y gs) (hy : y.phase.early = true) : x.phase.early = true := by
  cases h with
  | cancel => exact (cancel_phase x).1 ▸ hy
  | start hp => rw [hp]; rfl
  | pollNoRun seen hp _ => rw [hp]; rfl
  | pollWaiting hp _ => rw [hp]; rfl
  | pollReady sandboxId hp _ => rw [hp]; rfl
  | pollFailed hp _ => rw [hp]; rfl
  | bootstrapTimesOut hp => rw [hp]; rfl
  | activate sandboxId hp => rw [hp]; rfl
  | prepare stage next hp _ => rw [hp]; rfl
  | prepared stage hp _ => rw [hp]; rfl
  | write kind saved hp =>
    change (Phase.afterSave x.request.mode kind : Phase φ).early = true at hy
    generalize x.request.mode = mode at hy
    cases kind <;> cases mode <;> cases hy
  | bootstrapRaises hp => rcases hp with hp | ⟨sandboxId, hp⟩ <;> rw [hp] <;> rfl
  | report finding _ => exact hy
  | _ => cases hy

/-- The loop of an autonomous session is entered from its first save. -/
theorem Moves.looping (h : x.Moves findings e y gs) (hy : y.phase.looping = true) :
    x.phase.looping = true ∨ x.request.mode = .autonomous := by
  cases h with
  | cancel => exact .inl ((cancel_phase x).1 ▸ hy)
  | start hp =>
    change (if x.request.bootstraps then Phase.bootstrapping else .preparing .loadSandboxPorts : Phase φ).looping = true
      at hy
    split at hy <;> cases hy
  | pollWaiting hp _ => exact .inl hy
  | write kind saved hp =>
    change (Phase.afterSave x.request.mode kind : Phase φ).looping = true at hy
    cases hmode : x.request.mode with
    | autonomous => exact .inr rfl
    | _ => rw [hmode] at hy; cases kind <;> cases hy
  | loopReturns hp => rw [hp]; exact .inl rfl
  | saveCrashed hp => rw [hp]; exact .inl rfl
  | loopRaises hp => rw [hp]; exact .inl rfl
  | report finding _ => exact .inl hy
  | _ => cases hy

theorem Moves.talking (h : x.Moves findings e y gs) (hy : y.phase.talking = true) :
    x.phase.talking = true ∨ x.request.mode ≠ .autonomous := by
  cases h with
  | cancel => exact .inl ((cancel_phase x).1 ▸ hy)
  | start hp =>
    change (if x.request.bootstraps then Phase.bootstrapping else .preparing .loadSandboxPorts : Phase φ).talking = true
      at hy
    split at hy <;> cases hy
  | pollWaiting hp _ => exact .inl hy
  | messagesTimeOut hp => rcases hp with hp | hp <;> rw [hp] <;> exact .inl rfl
  | write kind saved hp =>
    change (Phase.afterSave x.request.mode kind : Phase φ).talking = true at hy
    cases hmode : x.request.mode with
    | autonomous => rw [hmode] at hy; cases kind <;> cases hy
    | _ => exact .inr (by simp)
  | answered hp => rcases hp with hp | hp <;> rw [hp] <;> exact .inl rfl
  | report finding _ => exact .inl hy
  | receive hp => rw [hp]; exact .inl rfl
  | leave hp => rw [hp]; exact .inl rfl
  | _ => cases hy

/-- A session comes to be saved from the step that records the missing verdicts, or from the message loop. -/
theorem Moves.filled (h : x.Moves findings e y gs) (hy : y.phase.filled = true) :
    x.phase.filled = true ∨ e = .advance ∧ (x.phase = .crashed ∨ x.phase = .finished) ∨ x.phase.talking = true := by
  cases h with
  | cancel => exact .inl ((cancel_phase x).1 ▸ hy)
  | start hp =>
    change (if x.request.bootstraps then Phase.bootstrapping else .preparing .loadSandboxPorts : Phase φ).filled = true
      at hy
    split at hy <;> cases hy
  | pollWaiting hp _ => exact .inl hy
  | write kind saved hp =>
    change (Phase.afterSave x.request.mode kind : Phase φ).filled = true at hy
    generalize x.request.mode = mode at hy
    cases kind <;> cases mode <;> cases hy
  | saveCrashed hp => exact .inr (.inl ⟨rfl, .inl hp⟩)
  | saveFinished hp => exact .inr (.inl ⟨rfl, .inr hp⟩)
  | saveClosing hp => rw [hp]; exact .inr (.inr rfl)
  | report finding _ => exact .inl hy
  | _ => cases hy

end Session
end ReleaseValidation.AiAgent

namespace ReleaseValidation.AiAgent.MissingVerdicts
open Parties Runs Verdicts
variable {φ ω : Type}

/-- The sessions beside the tables of calls and verdicts. -/
structure State (φ ω : Type) where
  agent : AiAgent.State φ
  tables : Verdicts.State ω

def initial : State φ ω := ⟨AiAgent.initial, Verdicts.initial⟩

inductive Act (φ ω : Type)
  | session (a : AiAgent.Act φ)
  | call (c : Call ω) (db : Database)

/-- `run_autonomous` records the missing verdicts before it saves the session. -/
def recordsMissing : Event φ → Phase φ → Bool
  | .advance, .crashed | .advance, .finished => true
  | _, _ => false

def fill (tables : Verdicts.State ω) (i : ℕ) (x : Session φ) (e : Event φ) : Verdicts.State ω :=
  if recordsMissing e x.phase then
    tables.recordMissingVerdicts i x.request.executionMode x.request.selectedTests true
  else tables

/-- What an action does to the tables while the sessions take their step. -/
def State.fills (s : State φ ω) : AiAgent.Act φ → Verdicts.State ω
  | .create _ _ => s.tables
  | .at i e => (s.agent.sessions[i]?).elim s.tables fun x => fill s.tables i x e

def step (R : Reading ω) (s : State φ ω) : Act φ ω → Option (State φ ω)
  | .session a => (AiAgent.step s.agent a).map fun agent => ⟨agent, s.fills a⟩
  | .call c db =>
    match s.agent.sessions[c.sessionId]? with
    | some x => if x.phase.calling then some { s with tables := (s.tables.execute R c db).2 } else none
    | none => none

/-- A session that the step saves as completed or failed. -/
def Saves (s : State φ ω) (a : Act φ ω) (i : ℕ) (x : Session φ) (kind : SaveKind) : Prop :=
  a = .session (.at i .advance) ∧ s.agent.sessions[i]? = some x ∧ (∃ saved, x.phase = .saving kind saved) ∧
    kind.status.terminal = true ∧ x.request.executionMode = .aiManual

/-- A manual session is saved as completed or failed with exactly one verdict on each selected test. -/
def SavedComplete (s : State φ ω) (a : Act φ ω) (t : State φ ω) : Prop :=
  ∀ i x kind, Saves s a i x kind → ∀ slug ∈ x.request.selectedTests,
    ∃! v, v ∈ t.tables.verdicts ∧ v.isFor i slug = true

/-- The agent itself has recorded a verdict on the test. -/
def State.AgentRecorded (s : State φ ω) (i : ℕ) (slug : String) : Prop :=
  ∃ v ∈ s.tables.verdicts, v.isFor i slug = true ∧ v.trailStepCount ≠ none

/-- A manual session does not fail in its bootstrap, and one that is not autonomous ends when the agent
has recorded a verdict on each selected test. -/
def EndsRecorded (s : State φ ω) (a : Act φ ω) (_ : State φ ω) : Prop :=
  ∀ i x kind, Saves s a i x kind → kind ≠ .bootstrapFailed ∧
    (x.request.mode ≠ .autonomous → ∀ slug ∈ x.request.selectedTests, s.AgentRecorded i slug)

section Tables
variable {R : Reading ω} {tables : Verdicts.State ω} {i : ℕ} {slug : String}

/-- What may be new in the verdicts after a step: rows of the session at position `i` that satisfy `P`. -/
structure Grows (i : ℕ) (P : VerdictRow → Prop) (tables tables' : Verdicts.State ω) : Prop where
  sound : Sound tables'
  kept : ∀ v ∈ tables.verdicts, ∃ v' ∈ tables'.verdicts, v'.sessionId = v.sessionId ∧
    v'.definitionSlug = v.definitionSlug
  new : ∀ v ∈ tables'.verdicts, v ∈ tables.verdicts ∨ v.sessionId = i ∧ P v

theorem Grows.refl (h : Sound tables) (i : ℕ) (P : VerdictRow → Prop) : Grows i P tables tables :=
  ⟨h, fun v hv => ⟨v, hv, rfl, rfl⟩, fun _ hv => .inl hv⟩

theorem execute_grows (h : Sound tables) (R : Reading ω) (c : Call ω) (db : Database) :
    Grows c.sessionId (fun v => v.trailStepCount ≠ none) tables (tables.execute R c db).2 := by
  have hsound : Sound (tables.execute R c db).2 := h.step (a := .execute c db) rfl
  rcases execute_cases R tables c db with ⟨sub, -, he⟩ | ⟨answer, -, he⟩
  · rw [he] at hsound ⊢
    have hw := upsert_written h.keyed (row_key R c.sessionId sub (claimTrail R tables.invocations c.sessionId))
    refine ⟨hsound, ?_, ?_⟩
    · intro v hv
      rw [recordInvocation_verdicts]
      obtain ⟨v', hv', -, hs, hd⟩ := hw.kept (row_key R c.sessionId sub _) hv
      exact ⟨v', hv', hs, hd⟩
    · intro v hv
      rw [recordInvocation_verdicts] at hv
      rcases hw.cases v hv with rfl | ⟨hv, -⟩
      · exact .inr ⟨rfl, by intro hnone; cases hnone⟩
      · exact .inl hv
  · rw [he] at hsound ⊢
    have hverdicts := recordInvocation_verdicts (s := tables) c db
    exact ⟨hsound, fun v hv => ⟨v, hverdicts.symm ▸ hv, rfl, rfl⟩, fun v hv => .inl (hverdicts ▸ hv)⟩

theorem recordMissing_grows (h : Sound tables) (i : ℕ) (mode : ExecutionMode) (selected : List String) :
    Grows i (fun _ => True) tables (tables.recordMissingVerdicts i mode selected true) := by
  refine ⟨h.recordMissingVerdicts mode selected true, ?_, ?_⟩
  · obtain ⟨slugs, he⟩ := recordMissingVerdicts_verdicts tables i mode selected true
    obtain ⟨-, hkept, -⟩ := h.keyed.foldl_insertBlocked i slugs
    intro v hv
    exact ⟨v, he ▸ hkept v hv, rfl, rfl⟩
  · obtain ⟨slugs, he⟩ := recordMissingVerdicts_verdicts tables i mode selected true
    obtain ⟨-, -, hnew⟩ := h.keyed.foldl_insertBlocked i slugs
    intro v hv
    rw [he] at hv
    refine (hnew v hv).imp_right ?_
    rintro ⟨-, slug, -, hrow⟩
    exact ⟨hrow ▸ rfl, trivial⟩

theorem foldl_insertBlocked_keeps (slugs : List String) {vs : List VerdictRow} (h : ∃ v ∈ vs, v.isFor i slug = true) :
    ∃ v ∈ slugs.foldl (Verdicts.State.insertBlocked i) vs, v.isFor i slug = true := by
  induction slugs generalizing vs with
  | nil => exact h
  | cons slug' slugs ih =>
    obtain ⟨v, hv, hfor⟩ := h
    apply ih
    rcases insertBlocked_cases i vs slug' with he | ⟨-, he⟩
    · exact ⟨v, he.symm ▸ hv, hfor⟩
    · exact ⟨v, he.symm ▸ List.mem_append_left _ hv, hfor⟩

theorem mem_foldl_insertBlocked (vs : List VerdictRow) {slugs : List String} (hslug : slug ∈ slugs) :
    ∃ v ∈ slugs.foldl (Verdicts.State.insertBlocked i) vs, v.isFor i slug = true := by
  induction slugs generalizing vs with
  | nil => cases hslug
  | cons slug' slugs ih =>
    rw [List.foldl_cons]
    rcases List.mem_cons.mp hslug with rfl | hslug
    · apply foldl_insertBlocked_keeps
      unfold Verdicts.State.insertBlocked
      split
      next hany => exact List.any_eq_true.mp hany
      next => exact ⟨_, List.mem_concat_self, isFor_iff.mpr ⟨rfl, rfl⟩⟩
    · exact ih _ hslug

/-- Afterwards each selected test has a verdict. -/
theorem recordMissing_complete {selected : List String} (hslug : slug ∈ selected) :
    ∃ v ∈ (tables.recordMissingVerdicts i .aiManual selected true).verdicts, v.isFor i slug = true := by
  have hne : selected ≠ [] := List.ne_nil_of_mem hslug
  unfold Verdicts.State.recordMissingVerdicts
  rw [if_neg (by simp [hne])]
  by_cases hany : tables.verdicts.any (·.isFor i slug) = true
  · exact foldl_insertBlocked_keeps _ (List.any_eq_true.mp hany)
  · apply mem_foldl_insertBlocked
    rw [Bool.not_eq_true] at hany
    exact List.mem_filter.mpr ⟨hslug, by rw [hany]; rfl⟩

end Tables

/-- What holds of a session and of its verdicts. -/
structure Recorded (tables : Verdicts.State ω) (i : ℕ) (x : Session φ) : Prop where
  tests : x.request.executionMode = .aiManual → x.request.selectedTests ≠ []
  early : x.phase.early = true → ∀ v ∈ tables.verdicts, v.sessionId ≠ i
  looping : x.phase.looping = true → x.request.mode = .autonomous
  talking : x.phase.talking = true → x.request.mode ≠ .autonomous
  own : x.request.mode ≠ .autonomous → ∀ v ∈ tables.verdicts, v.sessionId = i → v.trailStepCount ≠ none
  filled : x.phase.filled = true → x.request.mode = .autonomous → x.request.executionMode = .aiManual →
    ∀ slug ∈ x.request.selectedTests, ∃ v ∈ tables.verdicts, v.isFor i slug = true

section Steps
variable {R : Reading ω} {tables tables' : Verdicts.State ω} {i j : ℕ} {x y : Session φ} {e : Event φ}
  {P : VerdictRow → Prop} {s t : State φ ω} {a : Act φ ω}

theorem Grows.isFor {slug : String} (hg : Grows j P tables tables')
    (h : ∃ v ∈ tables.verdicts, v.isFor i slug = true) : ∃ v ∈ tables'.verdicts, v.isFor i slug = true := by
  obtain ⟨v, hv, hfor⟩ := h
  obtain ⟨v', hv', hs, hd⟩ := hg.kept v hv
  exact ⟨v', hv', isFor_iff.mpr ⟨hs.trans (isFor_iff.mp hfor).1, hd.trans (isFor_iff.mp hfor).2⟩⟩

theorem Recorded.frame (hx : Recorded tables i x) (hg : Grows j P tables tables') (hij : i ≠ j) :
    Recorded tables' i x where
  tests := hx.tests
  early hp v hv := by
    rcases hg.new v hv with hold | ⟨rfl, -⟩
    · exact hx.early hp v hold
    · exact hij.symm
  looping := hx.looping
  talking := hx.talking
  own hm v hv hi := by
    rcases hg.new v hv with hold | ⟨hj, -⟩
    · exact hx.own hm v hold hi
    · exact absurd (hi.symm.trans hj) hij
  filled hp hm he slug hslug := hg.isFor (hx.filled hp hm he slug hslug)

theorem calling_not_early {p : Phase φ} (h : p.calling = true) : p.early = false := by
  cases p <;> first | rfl | cases h

/-- A call of the agent itself leaves a verdict with a count. -/
theorem Recorded.call (hx : Recorded tables i x) (hcalling : x.phase.calling = true)
    (hg : Grows i (fun v => v.trailStepCount ≠ none) tables tables') : Recorded tables' i x where
  tests := hx.tests
  early hp := by
    rw [calling_not_early hcalling] at hp
    cases hp
  looping := hx.looping
  talking := hx.talking
  own hm v hv hi := by
    rcases hg.new v hv with hold | ⟨-, hcount⟩
    · exact hx.own hm v hold hi
    · exact hcount
  filled hp hm he slug hslug := hg.isFor (hx.filled hp hm he slug hslug)

theorem recordsMissing_iff {p : Phase φ} :
    recordsMissing e p = true ↔ e = .advance ∧ (p = .crashed ∨ p = .finished) := by
  constructor
  · intro h
    unfold recordsMissing at h
    split at h
    · exact ⟨rfl, .inl rfl⟩
    · exact ⟨rfl, .inr rfl⟩
    · cases h
  · rintro ⟨rfl, rfl | rfl⟩ <;> rfl

theorem fill_grows (h : Sound tables) (i : ℕ) (x : Session φ) (e : Event φ) :
    Grows i (fun _ => True) tables (fill tables i x e) := by
  unfold fill
  split
  · exact recordMissing_grows h i _ _
  · exact .refl h i _

theorem Recorded.moves {findings gs : List φ} (hx : Recorded tables i x) (h : x.Moves findings e y gs) :
    Recorded (fill tables i x e) i y := by
  obtain ⟨hmode, hexec, hselected⟩ := h.request
  have htalking : y.phase.talking = true → y.request.mode ≠ .autonomous := by
    intro hp
    rw [hmode]
    exact (h.talking hp).elim hx.talking id
  have hlooping : y.phase.looping = true → y.request.mode = .autonomous := by
    intro hp
    rw [hmode]
    exact (h.looping hp).elim hx.looping id
  have htests : y.request.executionMode = .aiManual → y.request.selectedTests ≠ [] := by
    rw [hexec, hselected]
    exact hx.tests
  unfold fill
  split
  next hrec =>
    obtain ⟨-, hphase⟩ := recordsMissing_iff.mp hrec
    have hauto : x.request.mode = .autonomous := by
      apply hx.looping
      rcases hphase with hp | hp <;> rw [hp] <;> rfl
    refine ⟨htests, ?_, hlooping, htalking, ?_, ?_⟩
    · intro hp
      have hearly := h.early hp
      rcases hphase with hp' | hp' <;> rw [hp'] at hearly <;> cases hearly
    · intro hm
      exact absurd (hmode.trans hauto) hm
    · intro _ _ he slug hslug
      rw [hexec] at he
      rw [hselected] at hslug
      rw [he]
      exact recordMissing_complete hslug
  next hrec =>
    refine ⟨htests, fun hp => hx.early (h.early hp), hlooping, htalking, ?_, ?_⟩
    · rw [hmode]
      exact hx.own
    · intro hp hm he
      rw [hexec] at he
      rw [hselected]
      rw [hmode] at hm
      rcases h.filled hp with hp | hadvance | hp
      · exact hx.filled hp hm he
      · exact absurd (recordsMissing_iff.mpr hadvance) hrec
      · exact absurd hm (hx.talking hp)

structure Inv (s : State φ ω) : Prop where
  sound : Sound s.tables
  sessions : Each (Recorded s.tables) s.agent.sessions
  known : ∀ v ∈ s.tables.verdicts, v.sessionId < s.agent.sessions.length

theorem inv_initial : Inv (initial : State φ ω) :=
  ⟨sound_initial, (by intro i x h; cases h), by intro v hv; cases hv⟩

theorem recorded_created {b : SessionBody} (hb : b.accepted = true) (newRun : Store.Uuid)
    (hnew : ∀ v ∈ tables.verdicts, v.sessionId ≠ i) : Recorded tables i (.created b newRun : Session φ) where
  tests hmode := by
    change b.executionMode = .aiManual at hmode
    unfold SessionBody.accepted at hb
    rw [hmode] at hb
    simp only [ne_eq, not_true_eq_false, decide_false, Bool.false_or, Bool.and_eq_true, decide_eq_true_eq] at hb
    exact hb.2.2
  early _ := hnew
  looping hp := by cases hp
  talking hp := by cases hp
  own _ v hv hi := absurd hi (hnew v hv)
  filled hp := by cases hp

theorem Inv.step (h : Inv s) (hstep : step R s a = some t) : Inv t := by
  cases a with
  | session a =>
    obtain ⟨agent, hagent, rfl⟩ := Option.map_eq_some_iff.mp hstep
    cases a with
    | create b newRun =>
      obtain ⟨hb, rfl⟩ := step_create_eq_some.mp hagent
      refine ⟨h.sound, h.sessions.append ?_ fun _ _ _ hx => hx, ?_⟩
      · apply recorded_created hb
        intro v hv
        exact Nat.ne_of_lt (h.known v hv)
      · intro v hv
        change v.sessionId < (_ ++ [_]).length
        rw [List.length_append]
        exact Nat.lt_add_right _ (h.known v hv)
    | «at» i e =>
      obtain ⟨x, y, findings, hx, hy, rfl⟩ := step_at_eq_some.mp hagent
      have htables : s.fills (.at i e) = fill s.tables i x e := by
        rw [State.fills, hx]
        rfl
      have hg := fill_grows h.sound i x e
      rw [← htables] at hg
      refine ⟨hg.sound, ?_, ?_⟩
      · refine h.sessions.set (Q := Recorded (s.fills (.at i e))) ?_ ?_
        · rw [htables]
          exact (h.sessions i x hx).moves (Session.step_moves hy)
        · intro j z hji _ hz
          exact hz.frame hg hji
      · intro v hv
        change v.sessionId < (s.agent.sessions.set i y).length
        rw [List.length_set]
        rcases hg.new v hv with hold | ⟨rfl, -⟩
        · exact h.known v hold
        · exact (List.getElem?_eq_some_iff.mp hx).1
  | call c db =>
    unfold MissingVerdicts.step at hstep
    dsimp only at hstep
    split at hstep
    next x hx =>
      split at hstep
      next hcalling =>
        cases hstep
        have hg := execute_grows h.sound R c db
        refine ⟨hg.sound, ?_, ?_⟩
        · intro i y hi
          by_cases hic : i = c.sessionId
          · subst hic
            cases hi.symm.trans hx
            exact (h.sessions _ _ hx).call hcalling hg
          · exact (h.sessions i y hi).frame hg hic
        · intro v hv
          rcases hg.new v hv with hold | ⟨hi, -⟩
          · exact h.known v hold
          · rw [hi]
            exact (List.getElem?_eq_some_iff.mp hx).1
      · cases hstep
    · cases hstep

/-- The save itself leaves the verdicts alone. -/
theorem tables_of_saves {x : Session φ} {kind : SaveKind} (hsave : Saves s a i x kind) (h : step R s a = some t) :
    t.tables = s.tables := by
  obtain ⟨rfl, hx, ⟨saved, hp⟩, -⟩ := hsave
  obtain ⟨agent, hagent, rfl⟩ := Option.map_eq_some_iff.mp h
  change s.fills (.at i .advance) = s.tables
  rw [State.fills, hx]
  change fill s.tables i x .advance = s.tables
  unfold fill
  rw [hp]
  rfl

theorem savedComplete_iff (hs : Inv s) (h : step R s a = some t) : SavedComplete s a t ↔ EndsRecorded s a t := by
  constructor
  · intro hcomplete i x kind hsave
    have hverdict := hcomplete i x kind hsave
    rw [tables_of_saves hsave h] at hverdict
    obtain ⟨-, hx, ⟨saved, hp⟩, -, hmanual⟩ := hsave
    have hrec := hs.sessions i x hx
    constructor
    · rintro rfl
      obtain ⟨slug, hslug⟩ := List.exists_mem_of_ne_nil _ (hrec.tests hmanual)
      obtain ⟨v, ⟨hv, hfor⟩, -⟩ := hverdict slug hslug
      exact hrec.early (by rw [hp]; rfl) v hv (isFor_iff.mp hfor).1
    · intro hmode slug hslug
      obtain ⟨v, ⟨hv, hfor⟩, -⟩ := hverdict slug hslug
      exact ⟨v, hv, hfor, hrec.own hmode v hv (isFor_iff.mp hfor).1⟩
  · intro hends i x kind hsave slug hslug
    obtain ⟨hkind, hagent⟩ := hends i x kind hsave
    rw [tables_of_saves hsave h]
    obtain ⟨-, hx, ⟨saved, hp⟩, hterminal, hmanual⟩ := hsave
    have hrec := hs.sessions i x hx
    have hexists : ∃ v ∈ s.tables.verdicts, v.isFor i slug = true := by
      by_cases hmode : x.request.mode = .autonomous
      · refine hrec.filled ?_ hmode hmanual slug hslug
        rw [hp]
        cases kind with
        | interim => cases hterminal
        | bootstrapFailed => exact absurd rfl hkind
        | _ => rfl
      · obtain ⟨v, hv, hfor, -⟩ := hagent hmode slug hslug
        exact ⟨v, hv, hfor⟩
    obtain ⟨v, hv, hfor⟩ := hexists
    refine ⟨v, ⟨hv, hfor⟩, ?_⟩
    rintro v' ⟨hv', hfor'⟩
    apply hs.sound.keyed.unique v' hv' v hv
    · exact (isFor_iff.mp hfor').1.trans (isFor_iff.mp hfor).1.symm
    · exact (isFor_iff.mp hfor').2.trans (isFor_iff.mp hfor).2.symm

end Steps

/-- The manual sessions of a run are all saved with one verdict on each selected test exactly when none
fails in its bootstrap and those that are not autonomous end with all their tests recorded by the agent. -/
theorem selected_tests_recorded_iff (R : Reading ω) (as : List (Act φ ω)) :
    Always (step R) SavedComplete initial as ↔ Always (step R) EndsRecorded initial as := by
  refine always_iff_of_invariant (I := Inv) ?_ inv_initial
  intro s a t hs h
  exact ⟨savedComplete_iff hs h, fun _ => hs.step h⟩

/-- The user of a collaborative session leaves without asking for the selected test. -/
def leftEarly : List (Act String Unit) :=
  .session (.create ⟨.collaborative, .aiManual, some "run-1", some "sbx-1", none, ["echo"], false⟩ "run-2") ::
    (onSession 0 (.start :: List.replicate 7 .advance ++ [.leave, .advance])).map .session

theorem saved_without_verdict :
    ¬ Always (step plainReading) SavedComplete initial (leftEarly ++ [.session (.at 0 .advance)]) := by
  intro h
  have hrun : (exec (step plainReading) initial leftEarly).bind
      (fun u => (step plainReading u (.session (.at 0 .advance))).bind fun t => u.agent.sessions[0]?.map fun x =>
        (x.phase, x.request.executionMode, x.request.selectedTests, t.tables.verdicts)) =
      some (.saving .completed [], .aiManual, ["echo"], []) := by decide +kernel
  obtain ⟨u, hu, hrest⟩ := Option.bind_eq_some_iff.mp hrun
  obtain ⟨t, ht, hrest⟩ := Option.bind_eq_some_iff.mp hrest
  obtain ⟨x, hx, hfields⟩ := Option.map_eq_some_iff.mp hrest
  rw [Prod.mk.injEq, Prod.mk.injEq, Prod.mk.injEq] at hfields
  obtain ⟨hp, hmanual, hselected, hnone⟩ := hfields
  have hsave : Saves u (.session (.at 0 .advance)) 0 x .completed := ⟨rfl, hx, ⟨[], hp⟩, rfl, hmanual⟩
  obtain ⟨v, ⟨hv, -⟩, -⟩ := h.at hu ht 0 x .completed hsave "echo" (by rw [hselected]; exact List.mem_singleton.mpr rfl)
  rw [hnone] at hv
  cases hv

end ReleaseValidation.AiAgent.MissingVerdicts
