import Mathlib.Data.List.Destutter
import ReleaseValidation.Foundations.Polls
import ReleaseValidation.Foundations.Tailing
import ReleaseValidation.Store.Json

/-! # What a session tells of its bootstrap

While the sandbox of a session is being provisioned, the session's coroutine polls the
database: whether the session was aborted, how the sandbox stands, and the next lines of the
run's log. It passes the lines on, tells each change of the status, and ends when the sandbox
is ready or has failed, when the session is aborted, or late.
-/
namespace ReleaseValidation.AiAgent.BootstrapRelay
open Polls Programs Store Tailing

variable {Time : Type}

structure LogRow (Time : Type) where
  id : ℕ
  source : String
  level : String
  message : String
  ts : Time
  deriving DecidableEq, Repr

structure SandboxRow where
  id : String
  status : String
  metadata : Json
  failureReason : Option String

/-- What one round of the loop sees. -/
structure Poll (Time : Type) where
  /-- `time.monotonic() - start`, in seconds: at the head of the loop and later in it. -/
  elapsed : ℕ
  elapsedLater : ℕ
  sessionStatus : Option String
  row : Option SandboxRow
  /-- The log of the run at that time, and the rows that the query returns. -/
  table : List (LogRow Time)
  logRows : List (LogRow Time)

inductive Event
  | bootstrapLog (source message : String)
  | bootstrapProgress (sandboxStatus : String) (sandboxId : Option String) (elapsed : ℕ)
  | bootstrapReady (sandboxId : String) (appAddress : Json) (elapsed : ℕ)

inductive Outcome
  | ready (sandboxId : String)
  | failed (text : String)
  | cancelled
  /-- Another error of the body. -/
  | raised (e : Err)
  | timedOut (text : String)

structure State (Time : Type) where
  lastStatus : Option String
  lastLogTs : Option Time
  events : List Event

def initial : State Time := ⟨none, none, []⟩

def bootstrapTimeoutS : ℕ := 900

/-- `LIMIT :lim`. -/
def bootstrapLogBatch : ℕ := 8

/-- `s[:n]`. -/
def clip (n : ℕ) (s : String) : String := String.ofList (s.toList.take n)

def Poll.aborted (e : Poll Time) : Bool := e.sessionStatus == some "aborted"

def Poll.status (e : Poll Time) : Option String := e.row.map SandboxRow.status

/-- `meta.get("app_address")`. -/
def appAddress (loads : String → Option Json) (metadata : Json) : Except Err Json :=
  match metadata.orElse (.obj []) with
  | .str s => ((loads s).getD (.obj [])).get "app_address" .null
  | m => m.get "app_address" .null

section Loop
variable (loads : String → Option Json)

/-- The lines of the log are passed on, and the reader moves behind them. -/
def relay (s : State Time) (logRows : List (LogRow Time)) : State Time :=
  { s with
    lastLogTs := advance LogRow.ts s.lastLogTs logRows
    events := s.events ++ logRows.map fun L => .bootstrapLog L.source (clip 300 L.message) }

def tellStatus (s : State Time) (e : Poll Time) : State Time :=
  if e.status = s.lastStatus then s
  else
    { s with
      lastStatus := e.status
      events := s.events ++ [.bootstrapProgress ((e.status.filter (· ≠ "")).getD "queued") (e.row.map SandboxRow.id)
        e.elapsedLater] }

/-- One round of the loop of `_bootstrap_environment`. -/
def round (s : State Time) (e : Poll Time) : Round (State Time) (Outcome × List Event) :=
  if e.aborted then .leave (.cancelled, s.events)
  else
    let t := tellStatus (relay s e.logRows) e
    match e.row with
    | none => .again t
    | some row =>
      if row.status = "ready" then
        match appAddress loads row.metadata with
        | .ok address => .leave (.ready row.id, t.events ++ [.bootstrapReady row.id address e.elapsedLater])
        | .error error => .leave (.raised error, t.events)
      else if row.status = "failed" then
        .leave (.failed ("Sandbox provisioning failed: " ++
          clip 400 ((row.failureReason.filter (· ≠ "")).getD "unknown")), t.events)
      else .again t

def late (e : Poll Time) : Bool := decide (bootstrapTimeoutS ≤ e.elapsed)

def timedOut (s : State Time) : Outcome × List Event :=
  (.timedOut ("Bootstrap timed out after " ++ toString bootstrapTimeoutS ++ "s waiting for a ready sandbox"), s.events)

/-- `_bootstrap_environment`, from its loop on. -/
def bootstrap (es : List (Poll Time)) : Option (Outcome × List Event) := poll late (round loads) timedOut initial es

end Loop

/-- The round of this poll leaves the loop. -/
def Poll.leaves (e : Poll Time) : Bool := e.aborted || e.status == some "ready" || e.status == some "failed"

/-- How this poll ends the loop, if it does. -/
def Poll.outcome (loads : String → Option Json) (e : Poll Time) : Option Outcome :=
  if e.aborted then some .cancelled
  else
    match e.row with
    | none => none
    | some row =>
      if row.status = "ready" then
        match appAddress loads row.metadata with
        | .ok _ => some (.ready row.id)
        | .error error => some (.raised error)
      else if row.status = "failed" then
        some (.failed ("Sandbox provisioning failed: " ++
          clip 400 ((row.failureReason.filter (· ≠ "")).getD "unknown")))
      else none

/-- The polls that are made and read the log. -/
def reading (es : List (Poll Time)) : List (Poll Time) := (made late Poll.leaves es).filter fun e => !e.aborted

def Event.line : Event → Option (String × String)
  | bootstrapLog source message => some (source, message)
  | _ => none

def Event.told : Event → Option String
  | bootstrapProgress status _ _ => some status
  | _ => none

def LogRow.line (L : LogRow Time) : String × String := (L.source, clip 300 L.message)

/-- The changes of a status that begins with none. -/
def changes (statuses : List (Option String)) : List (Option String) :=
  (statuses.destutter' (· ≠ ·) none).tail

def statusText (status : Option String) : String := (status.filter (· ≠ "")).getD "queued"

theorem destutter'_concat {α : Type} [DecidableEq α] (l : List α) (a x : α) :
    (l ++ [x]).destutter' (· ≠ ·) a = l.destutter' (· ≠ ·) a ++ if x = l.getLast?.getD a then [] else [x] := by
  induction l generalizing a with
  | nil =>
    by_cases h : a = x
    · simp [h]
    · simp [h, Ne.symm h]
  | cons b l ih =>
    have hlast : (b :: l).getLast?.getD a = l.getLast?.getD b := by rw [List.getLast?_cons]; rfl
    rw [List.cons_append, hlast]
    by_cases h : a = b
    · subst h
      simpa using ih a
    · simpa [h] using ih b

theorem changes_concat (statuses : List (Option String)) (status : Option String) :
    changes (statuses ++ [status]) =
      changes statuses ++ if status = statuses.getLast?.getD none then [] else [status] := by
  have hne : statuses.destutter' (· ≠ ·) none ≠ [] := List.destutter'_ne_nil _ _
  rw [changes, destutter'_concat, List.tail_append_of_ne_nil hne]
  rfl

/-! ### What the loop has told -/

/-- The state after these polls: all their lines are passed on, all changes of the status told. -/
structure Told (ps : List (Poll Time)) (s : State Time) : Prop where
  lines : s.events.filterMap Event.line = (ps.flatMap Poll.logRows).map LogRow.line
  statuses : s.events.filterMap Event.told = (changes (ps.map Poll.status)).map statusText
  lastStatus : s.lastStatus = (ps.map Poll.status).getLast?.getD none
  lastLogTs : s.lastLogTs = position LogRow.ts none (ps.map fun e => (e.table, e.logRows))

theorem told_initial : Told [] (initial : State Time) := ⟨rfl, rfl, rfl, rfl⟩

theorem Told.next {ps : List (Poll Time)} {s : State Time} (h : Told ps s) (e : Poll Time) :
    Told (ps ++ [e]) (tellStatus (relay s e.logRows) e) := by
  have hlines : (relay s e.logRows).events.filterMap Event.line =
      ((ps ++ [e]).flatMap Poll.logRows).map LogRow.line := by
    rw [relay, List.filterMap_append, h.lines, List.filterMap_map, List.flatMap_append, List.map_append,
      List.flatMap_singleton]
    congr 1
    rw [← List.filterMap_eq_map]
    rfl
  have hstatuses : (relay s e.logRows).events.filterMap Event.told = (changes (ps.map Poll.status)).map statusText := by
    rw [relay, List.filterMap_append, h.statuses, List.filterMap_map, List.filterMap_eq_nil_iff.mpr, List.append_nil]
    exact fun _ _ => rfl
  have hts : (relay s e.logRows).lastLogTs = position LogRow.ts none ((ps ++ [e]).map fun e => (e.table, e.logRows)) := by
    rw [relay, h.lastLogTs, List.map_append, List.map_singleton, position_snoc]
  have hlast : (relay s e.logRows).lastStatus = (ps.map Poll.status).getLast?.getD none := h.lastStatus
  unfold tellStatus
  split
  next hsame =>
    refine ⟨hlines, ?_, ?_, hts⟩
    · rw [hstatuses, List.map_append, List.map_singleton, changes_concat, if_pos (hsame.trans hlast), List.append_nil]
    · rw [List.map_append, List.map_singleton, List.getLast?_concat, Option.getD_some, hsame]
  next hchanged =>
    refine ⟨?_, ?_, ?_, hts⟩
    · rw [List.filterMap_append, hlines]
      simp [Event.line]
    · rw [List.map_append, List.map_singleton, changes_concat, if_neg (hlast ▸ hchanged), List.map_append, ← hstatuses,
        List.filterMap_append]
      rfl
    · rw [List.map_append, List.map_singleton, List.getLast?_concat, Option.getD_some]

section Rounds
variable {loads : String → Option Json} {s t : State Time} {e : Poll Time}

theorem leaves_iff : e.leaves = true ↔ e.aborted = true ∨ e.status = some "ready" ∨ e.status = some "failed" := by
  simp [Poll.leaves, or_assoc]

theorem stays (h : e.leaves = false) : e.aborted = false ∧ e.status ≠ some "ready" ∧ e.status ≠ some "failed" := by
  have hno : ¬ (e.aborted = true ∨ e.status = some "ready" ∨ e.status = some "failed") := by
    rw [← leaves_iff, h]
    exact Bool.false_ne_true
  simpa using hno

theorem outcome_none (h : e.leaves = false) : e.outcome loads = none := by
  obtain ⟨haborted, hready, hfailed⟩ := stays h
  cases he : e.row with
  | none => simp [Poll.outcome, he, haborted]
  | some row =>
    rw [Poll.status, he] at hready hfailed
    rw [Poll.outcome, he, haborted]
    dsimp only
    rw [if_neg Bool.false_ne_true, if_neg (by simpa using hready), if_neg (by simpa using hfailed)]

/-- A round that leaves the loop tells its lines and its status, and of the ready sandbox. -/
theorem round_leave (h : e.leaves = true) : ∃ outcome events, round loads s e = .leave (outcome, events) ∧
    e.outcome loads = some outcome ∧
    (e.aborted = true ∧ events = s.events ∨
      e.aborted = false ∧ ∃ ready, (∀ v ∈ ready, v.line = none ∧ v.told = none) ∧
        events = (tellStatus (relay s e.logRows) e).events ++ ready) := by
  rw [leaves_iff, Poll.status] at h
  unfold round Poll.outcome
  cases haborted : e.aborted with
  | true => exact ⟨_, _, rfl, rfl, Or.inl ⟨rfl, rfl⟩⟩
  | false =>
    have hrow := h.resolve_left (by simp [haborted])
    rw [if_neg Bool.false_ne_true, if_neg Bool.false_ne_true]
    cases he : e.row with
    | none => simp [he] at hrow
    | some row =>
      have hstatus : row.status = "ready" ∨ row.status = "failed" := by simpa [he] using hrow
      dsimp only
      split
      next =>
        cases appAddress loads row.metadata with
        | ok address =>
          refine ⟨_, _, rfl, rfl, Or.inr ⟨rfl, [_], fun v hv => ?_, rfl⟩⟩
          rw [List.mem_singleton.mp hv]
          exact ⟨rfl, rfl⟩
        | error error => exact ⟨_, _, rfl, rfl, Or.inr ⟨rfl, [], by simp, by simp⟩⟩
      next hready =>
        rw [if_pos (hstatus.resolve_left hready), if_pos (hstatus.resolve_left hready)]
        exact ⟨_, _, rfl, rfl, Or.inr ⟨rfl, [], by simp, by simp⟩⟩

theorem round_again (h : e.leaves = false) :
    e.aborted = false ∧ round loads s e = .again (tellStatus (relay s e.logRows) e) := by
  obtain ⟨haborted, hready, hfailed⟩ := stays h
  refine ⟨haborted, ?_⟩
  rw [round, if_neg (by simp [haborted])]
  cases he : e.row with
  | none => rfl
  | some row =>
    rw [Poll.status, he] at hready hfailed
    dsimp only
    rw [if_neg (by simpa using hready), if_neg (by simpa using hfailed)]

end Rounds

/-! ### The whole loop -/

variable {loads : String → Option Json} {es : List (Poll Time)} {outcome : Outcome} {events : List Event}

theorem rounds_told {pre : List (Poll Time)} {s : State Time} (hstays : ∀ d ∈ pre, d.leaves = false)
    (h : rounds late (round loads) initial pre = some s) : Told pre s := by
  suffices hgen : (∀ d ∈ pre, d.leaves = false) → Told pre s from hgen hstays
  refine rounds_induction (I := fun pre s => (∀ d ∈ pre, d.leaves = false) → Told pre s) (fun _ => told_initial) ?_ h
  intro pre t e u ih _ hround hall
  obtain ⟨hpre, he⟩ := List.forall_mem_append.mp hall
  rw [(round_again (he e (List.mem_singleton.mpr rfl))).2] at hround
  cases hround
  exact (ih hpre).next e

theorem reads_of_stays {ps : List (Poll Time)} (h : ∀ d ∈ ps, d.leaves = false) : ps.filter (fun e => !e.aborted) = ps := by
  refine List.filter_eq_self.mpr fun d hd => ?_
  simp [(stays (h d hd)).1]

/-- What the events tell of the log and the status when the loop has ended, and how it ended. -/
theorem bootstrap_told (h : bootstrap loads es = some (outcome, events)) :
    events.filterMap Event.line = ((reading es).flatMap Poll.logRows).map LogRow.line ∧
      events.filterMap Event.told = (changes ((reading es).map Poll.status)).map statusText ∧
      outcome = ((made late Poll.leaves es).getLast?.bind (Poll.outcome loads)).getD (timedOut (initial : State Time)).1 := by
  have hleave : ∀ (t : State Time) (e : Poll Time), e.leaves = true → ∃ a, round loads t e = .leave a := by
    intro t e he
    obtain ⟨outcome, events, hround, -⟩ := round_leave he
    exact ⟨_, hround⟩
  rw [bootstrap, poll_eq_some_iff_made hleave fun t e he => ⟨_, (round_again he).2⟩] at h
  · rcases h with ⟨pre, e, t, hmade, hpre, he, ht, hround⟩ | ⟨t, hstay, ht, -, hlate⟩
    · have htold := rounds_told hpre ht
      obtain ⟨outcome', events', hround', houtcome, hevents⟩ := round_leave he
      cases hround.symm.trans hround'
      rw [reading, hmade, List.filter_append, reads_of_stays hpre, List.getLast?_concat, Option.bind_some, houtcome]
      rcases hevents with ⟨haborted, rfl⟩ | ⟨haborted, ready, hready, rfl⟩
      · rw [List.filter_cons_of_neg (by simp [haborted]), List.filter_nil, List.append_nil]
        exact ⟨htold.lines, htold.statuses, rfl⟩
      · rw [List.filter_cons_of_pos (by simp [haborted]), List.filter_nil, List.filterMap_append, List.filterMap_append,
          (htold.next e).lines, (htold.next e).statuses, List.filterMap_eq_nil_iff.mpr fun v hv => (hready v hv).1,
          List.filterMap_eq_nil_iff.mpr fun v hv => (hready v hv).2, List.append_nil, List.append_nil]
        exact ⟨rfl, rfl, rfl⟩
    · cases hlate
      have htold := rounds_told hstay ht
      rw [reading, reads_of_stays hstay]
      refine ⟨htold.lines, htold.statuses, ?_⟩
      cases hlast : (made late Poll.leaves es).getLast? with
      | none => rfl
      | some e =>
        rw [Option.bind_some, outcome_none (hstay e (List.mem_of_getLast? hlast))]
        rfl

/-- A session's bootstrap passes on the lines of the run's log in their order and none twice, all up to
the last one told if and only if none came late or was cut off from lines of its time, and tells the
changes of the sandbox's status; how it ends is decided by its last poll, and by the time otherwise. -/
theorem bootstrap_relays [LinearOrder Time] (h : bootstrap loads es = some (outcome, events))
    (hfollows : Follows LogRow.ts bootstrapLogBatch none [] ((reading es).map fun e => (e.table, e.logRows))) :
    ∃ read : List (LogRow Time), events.filterMap Event.line = read.map LogRow.line ∧
      read.Pairwise (LogRow.ts · ≤ LogRow.ts ·) ∧ read.Nodup ∧
      (∀ r ∈ read, r ∈ latest [] ((reading es).map fun e => (e.table, e.logRows))) ∧
      (Covers LogRow.ts (read.getLast?.map LogRow.ts) (latest [] ((reading es).map fun e => (e.table, e.logRows))) read ↔
        Clean LogRow.ts none [] ((reading es).map fun e => (e.table, e.logRows))) ∧
      events.filterMap Event.told = (changes ((reading es).map Poll.status)).map statusText ∧
      outcome = ((made late Poll.leaves es).getLast?.bind (Poll.outcome loads)).getD (timedOut (initial : State Time)).1 := by
  obtain ⟨hlines, hstatuses, houtcome⟩ := bootstrap_told h
  obtain ⟨hsorted, hnodup, hmem, hcovers⟩ := hfollows.from_start
  rw [position_eq, Option.or_none] at hcovers
  have hread : ((reading es).map fun e => (e.table, e.logRows)).flatMap Prod.snd = (reading es).flatMap Poll.logRows :=
    List.flatMap_map _ _ _
  rw [hread] at hsorted hnodup hmem hcovers
  exact ⟨_, hlines, hsorted, hnodup, fun r hr => (hmem r hr).1, hcovers, hstatuses, houtcome⟩

/-- The line of time 2 is written after the one of time 3 was read. -/
def slowSandbox : List (Poll ℕ) :=
  let queued : LogRow ℕ := ⟨1, "provisioner", "info", "queued", 1⟩
  let booted : LogRow ℕ := ⟨2, "provisioner", "info", "booted", 3⟩
  let lateLine : LogRow ℕ := ⟨3, "anvil", "info", "listening", 2⟩
  [⟨0, 0, some "provisioning", none, [queued], [queued]⟩,
    ⟨5, 5, some "provisioning", some ⟨"sb", "provisioning", .null, none⟩, [queued, booted], [booted]⟩,
    ⟨10, 11, some "provisioning", some ⟨"sb", "ready", .null, none⟩, [queued, booted, lateLine], []⟩]

theorem bootstrap_relays_slowSandbox : ∃ outcome events,
    bootstrap (fun _ => none) slowSandbox = some (outcome, events) ∧ outcome = .ready "sb" ∧
      events.filterMap Event.line = [("provisioner", "queued"), ("provisioner", "booted")] ∧
      events.filterMap Event.told = ["provisioning", "ready"] ∧
      ∃ read : List (LogRow ℕ), events.filterMap Event.line = read.map LogRow.line ∧ read.Nodup := by
  have hrun : ∃ r, bootstrap (fun _ => none) slowSandbox = some r ∧ r.1 = .ready "sb" ∧
      r.2.filterMap Event.line = [("provisioner", "queued"), ("provisioner", "booted")] ∧
      r.2.filterMap Event.told = ["provisioning", "ready"] :=
    ⟨_, rfl, rfl, rfl, rfl⟩
  obtain ⟨⟨outcome, events⟩, hrun, houtcome, hlines, htold⟩ := hrun
  have hfollows : Follows LogRow.ts bootstrapLogBatch none []
      ((reading slowSandbox).map fun e => (e.table, e.logRows)) := by
    refine ⟨by decide, by decide, ⟨[], by decide, by decide, by decide, by decide⟩, by decide, by decide,
      ⟨[], by decide, by decide, by decide, by decide⟩, by decide, by decide,
      ⟨[], by decide, by decide, by decide, by decide⟩, trivial⟩
  obtain ⟨read, hread, -, hnodup, -⟩ := bootstrap_relays hrun hfollows
  exact ⟨outcome, events, hrun, houtcome, hlines, htold, read, hread, hnodup⟩

end ReleaseValidation.AiAgent.BootstrapRelay
