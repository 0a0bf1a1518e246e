import ReleaseValidation.Orchestrator.DispatchVersions

/-! # Sessions that bootstrap their own sandbox

The creation of such a session triggers a run for the sandbox alone, and marks the run's
metadata once the call returns, by which time the sandbox has been requested. When the
sandbox is ready the consumer reads the metadata before it dispatches. The runs of other
origins are left out; a run is known by the position of its session.
-/
namespace ReleaseValidation.Orchestrator.BootstrapSessions
open Store Catalog Parties Runs RunTriggers TestDispatch

structure Row where
  run : Run
  appAddress : Option String
  metadata : Option RunMetadata
  deriving DecidableEq, Repr

namespace Row

def stored (r : Row) : StoredRun := storedRun r.run r.appAddress r.metadata

def setStatus (status : RunStatus) (r : Row) : Row := { r with run := { r.run with status := status } }

/-- `metadata || {'ai_session': true}`. -/
def mark (r : Row) : Row := { r with metadata := some { r.stored.meta with aiSession := true } }

/-- `metadata || {'dispatched_count': n}`. -/
def count (n : ℕ) (r : Row) : Row := { r with metadata := some { r.stored.meta with dispatchedCount := some n } }

def aiSession (r : Row) : Bool := r.stored.meta.aiSession

@[simp] theorem aiSession_setStatus (r : Row) (status : RunStatus) : (r.setStatus status).aiSession = r.aiSession := rfl
@[simp] theorem aiSession_mark (r : Row) : r.mark.aiSession = true := rfl
@[simp] theorem aiSession_count (r : Row) (n : ℕ) : (r.count n).aiSession = r.aiSession := rfl

end Row

/-- The next operation of `create_session`, up to the commit of its mark. -/
inductive Stage
  | insert
  | refresh
  | lookup
  | publish (request : SandboxRequest)
  | mark
  | marked
  | failed
  deriving DecidableEq, Repr

/-- A session with the run that it has triggered. -/
structure Session where
  stage : Stage
  row : Option Row
  deriving DecidableEq, Repr

def Session.update (x : Session) (f : Row → Row) : Session := { x with row := x.row.map f }

/-- The creation of the session has committed its mark on the run. -/
def Session.marked (x : Session) : Bool := x.stage == .marked

structure ReadyEvent where
  runId : ℕ
  sandboxId : Uuid
  msg : SandboxMessage

/-- The next operation on a ready event. -/
inductive Handling
  | check
  | start
  | dispatch
  | publish (commands : List TestCommand) (count : ℕ)
  | count (n : ℕ)
  | ended

structure Consumer where
  event : ReadyEvent
  stage : Handling

def Handling.ends : Handling → Bool
  | .ended => true
  | _ => false

/-- The commands that a handler is about to publish. -/
def Handling.pending : Handling → List TestCommand
  | .publish commands _ => commands
  | _ => []

structure State where
  sessions : List Session
  requests : List SandboxRequest
  events : List ReadyEvent
  handlers : List Consumer
  commands : List TestCommand

def initial : State := ⟨[], [], [], [], []⟩

namespace State

def row (s : State) (k : ℕ) : Option Row := s.sessions[k]?.bind Session.row

def marked (s : State) (k : ℕ) : Bool := s.sessions[k]?.any Session.marked

def setSession (s : State) (i : ℕ) (x : Session) : State := { s with sessions := s.sessions.set i x }

/-- `UPDATE orchestrator.runs SET … WHERE id = …`. -/
def updateRow (s : State) (k : ℕ) (f : Row → Row) : State :=
  { s with sessions := s.sessions.modify k (·.update f) }

def setHandler (s : State) (j : ℕ) (h : Consumer) (stage : Handling) : State :=
  { s with handlers := s.handlers.set j { h with stage := stage } }

end State

inductive Act
  | create
  | advance (i : ℕ) (db : Db)
  | fail (i : ℕ)
  | setStatus (k : ℕ) (status : RunStatus)
  | ready (e : ReadyEvent) (appAddress : Option String)
  | deliver (e : ReadyEvent)
  | handle (j : ℕ) (db : Db) (definitions : List Definition)
  | drop (j : ℕ)

section System
variable (ch : Characters) (releaseTag imageTag : String)

/-- The call of `trigger_run`, with the tags of the environment. -/
def bootstrapCall : TriggerRunRequest :=
  ⟨releaseTag, imageTag, none, 8, "user", some "ai-session-bootstrap", none, none, none, none⟩

def bootstrapRun (i : ℕ) : Run :=
  ⟨i, releaseTag, imageTag, [], .queued, 8, .user, some "ai-session-bootstrap", none⟩

/-- The run is the one that the trigger endpoint inserts for the call. -/
theorem bootstrapCall_run (uuid : String → Option Uuid) (i : ℕ) :
    (bootstrapCall releaseTag imageTag).run uuid i none = some (bootstrapRun releaseTag imageTag i) := rfl

/-- The next operation of the session at position `i`, with what it publishes. -/
def Session.next (i : ℕ) (db : Db) (x : Session) : Option (Session × List SandboxRequest) :=
  match x.stage with
  | .insert => some (⟨.refresh, some ⟨bootstrapRun releaseTag imageTag i, none, none⟩⟩, [])
  | .refresh => some ({ x with stage := .lookup }, [])
  | .lookup =>
    let request := (bootstrapCall releaseTag imageTag).request ch i none (Catalog.lookup db releaseTag)
    some ({ x with stage := .publish request }, [])
  | .publish request => some ({ x with stage := .mark }, [request])
  | .mark => some (⟨.marked, x.row.map Row.mark⟩, [])
  | .marked => none
  | .failed => none

/-- The next operation of a handler. The run and the definitions are read in one transaction. -/
def handleNext (s : State) (j : ℕ) (h : Consumer) (db : Db) (definitions : List Definition) : Option State :=
  let k := h.event.runId
  match h.stage with
  | .check =>
    let cancelled := (s.row k).any fun r => r.run.status == .cancelled
    some (s.setHandler j h (if cancelled then .ended else .start))
  | .start => some ((s.updateRow k (·.setStatus .running)).setHandler j h .dispatch)
  | .dispatch =>
    let d := dispatchTests db definitions ((s.row k).map Row.stored) k h.event.sandboxId h.event.msg
    some (s.setHandler j h (.publish d.commands d.dispatchedCount))
  | .publish (c :: commands) n => some { s.setHandler j h (.publish commands n) with commands := s.commands ++ [c] }
  | .publish [] n => some (s.setHandler j h (.count n))
  | .count n => some ((s.updateRow k (·.count n)).setHandler j h .ended)
  | .ended => none

/-- The consumer takes one event after the other, possibly the same one again. -/
def step (s : State) : Act → Option State
  | .create => some { s with sessions := s.sessions ++ [⟨.insert, none⟩] }
  | .advance i db => s.sessions[i]?.bind fun x =>
      (x.next ch releaseTag imageTag i db).map fun (x', requests) =>
        { s.setSession i x' with requests := s.requests ++ requests }
  | .fail i => s.sessions[i]?.bind fun x =>
      if x.marked then none else some (s.setSession i { x with stage := .failed })
  | .setStatus k status => some (s.updateRow k (·.setStatus status))
  | .ready e appAddress =>
    if s.requests.any (·.runId == e.runId) then
      some { s.updateRow e.runId (fun r => { r with appAddress := appAddress.or r.appAddress }) with
        events := s.events ++ [e] }
    else none
  | .deliver e =>
    if s.handlers.all (·.stage.ends) then some { s with handlers := s.handlers ++ [⟨e, .check⟩] } else none
  | .handle j db definitions => s.handlers[j]?.bind fun h => handleNext s j h db definitions
  | .drop j => s.handlers[j]?.map fun h => s.setHandler j h .ended

end System

/-- No test is published for a session's run, and none is about to be. -/
def Quiet (s : State) : Prop := s.commands = [] ∧ ∀ h ∈ s.handlers, h.stage.pending = []

/-- No definition is chosen for the run as its row stands. -/
def NothingChosen (s : State) (k : ℕ) (db : Db) (definitions : List Definition) : Prop :=
  chosenFor db definitions ((s.row k).map Row.stored) = []

/-- A dispatch reads the run after the creation of its session has committed the mark, or there is
nothing to choose. -/
def ReadsMark (s : State) : Act → Prop
  | .handle j db definitions => ∀ h, s.handlers[j]? = some h → h.stage = .dispatch →
      s.marked h.event.runId = true ∨ NothingChosen s h.event.runId db definitions
  | _ => True

/-- The run has been inserted and its mark is still to come. -/
def Stage.unmarked : Stage → Bool
  | .refresh | .lookup | .publish _ | .mark => true
  | .insert | .marked | .failed => false

/-- The run of a session has the mark exactly when the creation of the session has committed it. -/
structure Session.Faithful (x : Session) : Prop where
  aiSession : x.row.any Row.aiSession = x.marked
  inserted : x.stage.unmarked = true → x.row.isSome = true

/-- What the sessions rely on. -/
def Faithful (s : State) : Prop := ∀ x ∈ s.sessions, x.Faithful

section Steps
variable {ch : Characters} {releaseTag imageTag : String} {s t : State} {x x' : Session}

theorem Session.Faithful.update (hx : x.Faithful) {f : Row → Row} (hf : ∀ r, (f r).aiSession = r.aiSession) :
    (x.update f).Faithful where
  aiSession := by
    have hrow := hx.aiSession
    cases hr : x.row with
    | none =>
      rw [hr] at hrow
      rw [Session.update, hr]
      exact hrow
    | some r =>
      rw [hr, Option.any_some] at hrow
      rw [Session.update, hr, Option.map_some, Option.any_some, hf]
      exact hrow
  inserted hstage := by
    rw [Session.update, Option.isSome_map]
    exact hx.inserted hstage

theorem Session.Faithful.next {i : ℕ} {db : Db} {requests : List SandboxRequest} (hx : x.Faithful)
    (hnext : x.next ch releaseTag imageTag i db = some (x', requests)) : x'.Faithful := by
  obtain ⟨stage, row⟩ := x
  have hrow := hx.aiSession
  cases stage with
  | insert =>
    cases hnext
    exact ⟨rfl, fun _ => rfl⟩
  | refresh =>
    cases hnext
    exact ⟨hrow, fun _ => hx.inserted rfl⟩
  | lookup =>
    cases hnext
    exact ⟨hrow, fun _ => hx.inserted rfl⟩
  | publish request =>
    cases hnext
    exact ⟨hrow, fun _ => hx.inserted rfl⟩
  | mark =>
    cases hnext
    obtain ⟨r, hr⟩ := Option.isSome_iff_exists.mp (hx.inserted rfl)
    change row = some r at hr
    subst hr
    exact ⟨rfl, fun h => by cases h⟩
  | marked => cases hnext
  | failed => cases hnext

theorem Session.Faithful.fail (hx : x.Faithful) (hmarked : ¬ x.marked = true) :
    Session.Faithful { x with stage := .failed } where
  aiSession := by
    rw [Bool.not_eq_true] at hmarked
    exact hx.aiSession.trans hmarked
  inserted h := by cases h

theorem faithful_set {i : ℕ} (hs : Faithful s) (hx : x'.Faithful) : Faithful (s.setSession i x') := by
  intro y hy
  rcases List.mem_or_eq_of_mem_set hy with hold | rfl
  · exact hs y hold
  · exact hx

theorem faithful_updateRow {k : ℕ} {f : Row → Row} (hs : Faithful s) (hf : ∀ r, (f r).aiSession = r.aiSession) :
    Faithful (s.updateRow k f) := by
  intro y hy
  obtain ⟨i, hi⟩ := List.mem_iff_getElem?.mp hy
  change (s.sessions.modify k (·.update f))[i]? = some y at hi
  rw [List.getElem?_modify] at hi
  obtain ⟨z, hz, rfl⟩ := Option.map_eq_some_iff.mp hi
  have hfaithful := hs z (List.mem_of_getElem? hz)
  split
  next => exact hfaithful.update hf
  next => exact hfaithful

/-- What a dispatch reads of the mark. -/
theorem marked_eq (hs : Faithful s) (k : ℕ) :
    ((((s.row k).map Row.stored).map StoredRun.meta).getD .empty).aiSession = s.marked k := by
  unfold State.row State.marked
  cases hx : s.sessions[k]? with
  | none => rfl
  | some x =>
    rw [Option.bind_some, Option.any_some, ← (hs x (List.mem_of_getElem? hx)).aiSession]
    cases x.row <;> rfl

/-- What a handler's operation leaves to be published, and what it publishes. -/
theorem handleNext_cases {j : ℕ} {h : Consumer} {db : Db} {definitions : List Definition}
    (hnext : handleNext s j h db definitions = some t) :
    (∃ stage, t.handlers = s.handlers.set j { h with stage := stage } ∧
      (h.stage ≠ .dispatch ∧ stage.pending = [] ∧ t.commands = s.commands ∨
        (∃ c commands, h.stage.pending = c :: commands ∧ h.stage ≠ .dispatch ∧ t.commands = s.commands ++ [c]) ∨
        h.stage = .dispatch ∧ t.commands = s.commands ∧ stage.pending =
          (dispatchTests db definitions ((s.row h.event.runId).map Row.stored) h.event.runId h.event.sandboxId
            h.event.msg).commands)) ∧ (Faithful s → Faithful t) := by
  obtain ⟨event, stage⟩ := h
  cases stage with
  | check =>
    cases hnext
    refine ⟨⟨_, rfl, Or.inl ⟨by simp, ?_, rfl⟩⟩, fun hs => hs⟩
    split <;> rfl
  | start =>
    cases hnext
    exact ⟨⟨_, rfl, Or.inl ⟨by simp, rfl, rfl⟩⟩, fun hs => faithful_updateRow hs fun r => r.aiSession_setStatus _⟩
  | dispatch =>
    cases hnext
    exact ⟨⟨_, rfl, Or.inr (Or.inr ⟨rfl, rfl, rfl⟩)⟩, fun hs => hs⟩
  | publish commands n =>
    cases commands with
    | nil =>
      cases hnext
      exact ⟨⟨_, rfl, Or.inl ⟨by simp, rfl, rfl⟩⟩, fun hs => hs⟩
    | cons c commands =>
      cases hnext
      exact ⟨⟨_, rfl, Or.inr (Or.inl ⟨c, commands, rfl, by simp, rfl⟩)⟩, fun hs => hs⟩
  | count n =>
    cases hnext
    exact ⟨⟨_, rfl, Or.inl ⟨by simp, rfl, rfl⟩⟩, fun hs => faithful_updateRow hs fun r => r.aiSession_count _⟩
  | ended => cases hnext

theorem quiet_setHandler {j : ℕ} {h : Consumer} {stage : Handling} (hs : Quiet s) (hj : s.handlers[j]? = some h)
    (hhandlers : t.handlers = s.handlers.set j { h with stage := stage }) (hcommands : t.commands = s.commands) :
    Quiet t ↔ stage.pending = [] := by
  constructor
  · intro ht
    refine ht.2 { h with stage := stage } ?_
    rw [hhandlers]
    exact List.mem_of_getElem? (getElem?_set_of_some hj)
  · intro hstage
    refine ⟨hcommands.trans hs.1, fun k hk => ?_⟩
    rw [hhandlers] at hk
    rcases List.mem_or_eq_of_mem_set hk with hold | rfl
    · exact hs.2 k hold
    · exact hstage

/-- A dispatch is quiet exactly when it reads the mark or has nothing to choose. -/
theorem quiet_handle_iff {j : ℕ} {h : Consumer} {db : Db} {definitions : List Definition} (hf : Faithful s)
    (hs : Quiet s) (hj : s.handlers[j]? = some h) (hnext : handleNext s j h db definitions = some t) :
    ReadsMark s (.handle j db definitions) ↔ Quiet t := by
  obtain ⟨⟨stage, hhandlers, hcases⟩, -⟩ := handleNext_cases hnext
  have hpending : h.stage.pending = [] := hs.2 h (List.mem_of_getElem? hj)
  have hother : h.stage ≠ .dispatch → ReadsMark s (.handle j db definitions) := by
    intro hne k hk hstage
    cases hj.symm.trans hk
    exact absurd hstage hne
  rcases hcases with ⟨hne, hstage, hcommands⟩ | ⟨c, commands, hsome, -⟩ | ⟨hdispatch, hcommands, hstage⟩
  · exact iff_of_true (hother hne) ((quiet_setHandler hs hj hhandlers hcommands).mpr hstage)
  · rw [hsome] at hpending
    cases hpending
  · rw [quiet_setHandler hs hj hhandlers hcommands, hstage, commands_eq_nil_iff, marked_eq hf]
    constructor
    · exact fun hreads => hreads h hj hdispatch
    · intro hread k hk _
      cases hj.symm.trans hk
      exact hread

theorem step_iff {a : Act} (hf : Faithful s) (hs : Quiet s) (hstep : step ch releaseTag imageTag s a = some t) :
    (ReadsMark s a ↔ Quiet t) ∧ Faithful t := by
  cases a with
  | create =>
    cases hstep
    refine ⟨iff_of_true trivial hs, ?_⟩
    intro x hx
    rcases List.mem_append.mp hx with hold | hnew
    · exact hf x hold
    · rw [List.mem_singleton.mp hnew]
      exact ⟨rfl, fun h => by cases h⟩
  | advance i db =>
    obtain ⟨x, hx, hstep⟩ := Option.bind_eq_some_iff.mp hstep
    obtain ⟨⟨x', requests⟩, hnext, rfl⟩ := Option.map_eq_some_iff.mp hstep
    exact ⟨iff_of_true trivial hs, faithful_set hf ((hf x (List.mem_of_getElem? hx)).next hnext)⟩
  | fail i =>
    obtain ⟨x, hx, hstep⟩ := Option.bind_eq_some_iff.mp hstep
    split at hstep
    next => cases hstep
    next hmarked =>
      cases hstep
      exact ⟨iff_of_true trivial hs, faithful_set hf ((hf x (List.mem_of_getElem? hx)).fail hmarked)⟩
  | setStatus k status =>
    cases hstep
    exact ⟨iff_of_true trivial hs, faithful_updateRow hf fun r => r.aiSession_setStatus status⟩
  | ready e appAddress =>
    rw [step] at hstep
    split at hstep
    next =>
      cases hstep
      refine ⟨iff_of_true trivial hs, ?_⟩
      exact faithful_updateRow (f := fun r => { r with appAddress := appAddress.or r.appAddress }) hf fun r => rfl
    next => cases hstep
  | deliver e =>
    rw [step] at hstep
    split at hstep
    next =>
      cases hstep
      refine ⟨iff_of_true trivial ⟨hs.1, fun h hh => ?_⟩, hf⟩
      rcases List.mem_append.mp hh with hold | hnew
      · exact hs.2 h hold
      · rw [List.mem_singleton.mp hnew]
        rfl
    next => cases hstep
  | handle j db definitions =>
    obtain ⟨h, hj, hnext⟩ := Option.bind_eq_some_iff.mp hstep
    exact ⟨quiet_handle_iff hf hs hj hnext, (handleNext_cases hnext).2 hf⟩
  | drop j =>
    obtain ⟨h, hj, rfl⟩ := Option.map_eq_some_iff.mp hstep
    have hquiet : Quiet (s.setHandler j h .ended) ↔ Handling.ended.pending = [] := quiet_setHandler hs hj rfl rfl
    exact ⟨iff_of_true trivial (hquiet.mpr rfl), hf⟩

/-- No test is published for the run of a session that bootstraps exactly when every dispatch of such
a run comes after the mark or finds nothing to choose. -/
theorem bootstrap_run_quiet_iff (as : List Act) :
    Always (step ch releaseTag imageTag) (fun s a _ => ReadsMark s a) initial as ↔
      Always (step ch releaseTag imageTag) (fun _ _ t => Quiet t) initial as := by
  refine always_iff_of_invariant (I := fun s => Faithful s ∧ Quiet s) ?_ ⟨?_, rfl, ?_⟩
  · rintro s a t ⟨hf, hs⟩ hstep
    obtain ⟨hiff, hfaithful⟩ := step_iff hf hs hstep
    exact ⟨hiff, fun hreads => ⟨hfaithful, hiff.mp hreads⟩⟩
  · intro x hx
    cases hx
  · intro h hh
    cases hh

end Steps

/-- The session's creation has published its request and has still to mark the run. -/
def untilMark : List Act :=
  [.create] ++ List.replicate 4 (.advance 0 noTables.catalog)

def sandboxReady : ReadyEvent := ⟨0, "sandbox", []⟩

/-- The sandbox is ready before the run is marked. -/
def readyFirst : List Act :=
  untilMark ++ [.ready sandboxReady none, .deliver sandboxReady] ++
    List.replicate 4 (.handle 0 noTables.catalog [advanceV1]) ++ [.advance 0 noTables.catalog]

/-- The run receives the tests of the sweep, and is marked afterwards. -/
theorem unmarked_run_dispatched :
    ((exec (step .ascii "v2.0.0-alpha.11" "cartesi/rollups-runtime:0.12.0-alpha.39") initial readyFirst).map fun s =>
      (s.commands.map fun c => (c.runId, c.definitionSlug), s.marked 0)) =
        some ([(0, "advance-state-basic")], true) ∧
    ¬ Always (step .ascii "v2.0.0-alpha.11" "cartesi/rollups-runtime:0.12.0-alpha.39") (fun _ _ t => Quiet t) initial
      readyFirst := by
  have hrun : ((exec (step .ascii "v2.0.0-alpha.11" "cartesi/rollups-runtime:0.12.0-alpha.39") initial readyFirst).map
      fun s => (s.commands.map fun c => (c.runId, c.definitionSlug), s.marked 0)) =
        some ([(0, "advance-state-basic")], true) := by decide +kernel
  refine ⟨hrun, fun h => ?_⟩
  obtain ⟨s, hs, hcommands⟩ := Option.map_eq_some_iff.mp hrun
  have hquiet : s.commands = [] := by
    have hsplit : readyFirst = readyFirst.dropLast ++ [.advance 0 noTables.catalog] := rfl
    rw [hsplit] at h hs
    obtain ⟨u, hu, hstep⟩ := exec_snoc_iff.mp hs
    exact (h.at hu hstep).1
  rw [hquiet] at hcommands
  cases hcommands

end ReleaseValidation.Orchestrator.BootstrapSessions
