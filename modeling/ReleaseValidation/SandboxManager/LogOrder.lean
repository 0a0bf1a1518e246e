import ReleaseValidation.Foundations.Handovers
import ReleaseValidation.Orchestrator.LogBatches
import ReleaseValidation.SandboxManager.LogBuffer

/-! # The order of log lines from the buffer to the table

The callback of the buffer schedules a coroutine on the event loop, which publishes the batch as
one event; the orchestrator stores the lines of one event after the other. A batch that is
taken first may be handed over last, and a coroutine that is scheduled first may publish last.
-/
namespace ReleaseValidation.SandboxManager.LogOrder
open Handovers JsonTexts LogBuffer Runs

/-- `run_coroutine_threadsafe` puts a coroutine at the end of `tasks`; `none` is one that has ended. -/
structure System where
  buffer : LogBuffer.State
  tasks : List (Option Batch)
  published : List Batch

def initial (n : ℕ) (now : ℤ) : System := ⟨LogBuffer.initial n now, [], []⟩

inductive Act
  | buffer (a : LogBuffer.Act)
  /-- `log_batch_reporter` raises, which the buffer ignores. -/
  | refused (i : ℕ)
  /-- `_publish_event` of a batch comes to its end. -/
  | publish (k : ℕ)
  /-- It raises, and nobody looks at the future. -/
  | fail (k : ℕ)
  deriving DecidableEq, Repr

/-- What the callback schedules. -/
def scheduled (s : LogBuffer.State) : LogBuffer.Act → List (Option Batch)
  | .deliver i => [s.held i]
  | _ => []

/-- The batch that a coroutine will publish. -/
def System.waiting (s : System) (k : ℕ) : Option Batch := s.tasks[k]?.join

variable (c : Config)

def step (s : System) : Act → Option System
  | .buffer a => (LogBuffer.step c s.buffer a).map fun b =>
      { s with buffer := b, tasks := s.tasks ++ scheduled s.buffer a }
  | .refused i => (LogBuffer.step c s.buffer (.deliver i)).map fun b => { s with buffer := b }
  | .publish k => (s.waiting k).map fun b => { s with tasks := s.tasks.set k none, published := s.published ++ [b] }
  | .fail k => (s.waiting k).map fun _ => { s with tasks := s.tasks.set k none }

/-- One thread has appended both lines, the first one before the second. -/
def Before (x y : Line) : Prop := x.thread = y.thread → x.number < y.number

instance : DecidableRel Before := fun x y => inferInstanceAs (Decidable (x.thread = y.thread → x.number < y.number))

/-- Whoever hands a batch over or publishes one does not overtake another batch, in the hands of a
thread or of a coroutine, with an earlier line of a thread that has lines in both. -/
def NotOvertaking (s : System) : Act → Prop
  | .buffer (.deliver i) | .refused i => Foremost Before s.buffer.held i
  | .publish k => Foremost Before s.waiting k
  | _ => True

theorem held_lt {b : LogBuffer.State} {i : ℕ} {d : Batch} (h : b.held i = some d) : i < b.threads.length :=
  (List.getElem?_eq_some_iff.mp (held_eq_some.mp h)).1

theorem waiting_lt {s : System} {k : ℕ} {d : Batch} (h : s.waiting k = some d) : k < s.tasks.length :=
  (List.getElem?_eq_some_iff.mp (Option.join_eq_some_iff.mp h)).1

instance (b : LogBuffer.State) (i : ℕ) : Decidable (Foremost Before b.held i) :=
  decidableForemost b.held i b.threads.length fun _ _ => held_lt

instance (s : System) (k : ℕ) : Decidable (Foremost Before s.waiting k) :=
  decidableForemost s.waiting k s.tasks.length fun _ _ => waiting_lt

instance (s : System) : (a : Act) → Decidable (NotOvertaking s a)
  | .buffer (.deliver i) | .refused i => inferInstanceAs (Decidable (Foremost Before s.buffer.held i))
  | .publish k => inferInstanceAs (Decidable (Foremost Before s.waiting k))
  | .buffer (.append ..) | .buffer (.flush _) | .buffer (.stop _) | .buffer .wake | .buffer (.test _) | .buffer .exit
  | .buffer (.take ..) | .fail _ => isTrue trivial

section Stored
open Orchestrator.LogBatches

variable {Run Time : Type} [DecidableEq Run] (sv : Services Run Time) (runId : Value) (now : Str)

/-- The element of the event for a line. -/
def element (l : Line) : Value :=
  .obj [(Value.key "source", .str l.entry.source), (Value.key "level", .str l.entry.level),
    (Value.key "message", .str l.entry.message), (Value.key "ts", .str l.entry.ts)]

/-- The events are handled one after the other; `now` is taken for a line without a time. -/
def handled (db : RunLogs Run Time) (events : List Batch) : RunLogs Run Time :=
  events.foldl (fun db b => storeLogBatch sv db runId (b.map fun l => ⟨element l, now⟩)) db

/-- The row of a line, in a database with the runs of `db`. -/
def row (db : RunLogs Run Time) (l : Line) : Option (Run × Orchestrator.LogBatches.Line Time) :=
  (parameters sv runId ⟨element l, now⟩).bind (columns sv db)

/-- The rows that the events add are those of lines in the order of their threads. -/
def RowsInOrder (db : RunLogs Run Time) (events : List Batch) : Prop :=
  ∃ ls : List Line, ls.Sublist events.flatten ∧ ls.Pairwise Before ∧
    (handled sv runId now db events).rows.map some = db.rows.map some ++ ls.map (row sv runId now db)

variable {sv runId now} {db db' : RunLogs Run Time}

theorem row_congr (h : db'.runs = db.runs) (l : Line) : row sv runId now db' l = row sv runId now db l := by
  unfold row columns
  rw [h]

/-- The rows of a statement that takes all of its elements. -/
theorem map_some_filterMap {α β : Type} {f : α → Option β} {xs : List α} (h : ∀ x ∈ xs, (f x).isSome = true) :
    (xs.filterMap f).map some = xs.map f := by
  induction xs with
  | nil => rfl
  | cons x xs ih =>
    obtain ⟨y, hy⟩ := Option.isSome_iff_exists.mp (h x List.mem_cons_self)
    rw [List.filterMap_cons_some hy, List.map_cons, List.map_cons, hy, ih fun z hz => h z (List.mem_cons_of_mem x hz)]

/-- The lines of a batch are stored in their order, or none of them is. -/
theorem storeLogBatch_rows (sv : Services Run Time) (runId : Value) (now : Str) (db : RunLogs Run Time) (b : Batch) :
    ∃ ls : List Line, ls.Sublist b ∧
    (storeLogBatch sv db runId (b.map fun l => ⟨element l, now⟩)).runs = db.runs ∧
    (storeLogBatch sv db runId (b.map fun l => ⟨element l, now⟩)).rows.map some =
      db.rows.map some ++ ls.map (row sv runId now db) := by
  have hparameters : ((b.map fun l => (⟨element l, now⟩ : Orchestrator.LogBatches.Entry)).filterMap
      (parameters sv runId)).map some = b.map fun l => parameters sv runId ⟨element l, now⟩ := by
    rw [map_some_filterMap, List.map_map]
    · rfl
    · intro e he
      obtain ⟨l, -, rfl⟩ := List.mem_map.mp he
      rfl
  unfold storeLogBatch
  generalize (b.map fun l => (⟨element l, now⟩ : Orchestrator.LogBatches.Entry)).filterMap (parameters sv runId) = rows
    at hparameters
  split
  next => exact ⟨[], List.nil_sublist _, rfl, (List.append_nil _).symm⟩
  next =>
    cases hnew : insertRows sv db rows with
    | none => exact ⟨[], List.nil_sublist _, rfl, (List.append_nil _).symm⟩
    | some new =>
      refine ⟨b, List.Sublist.refl _, rfl, ?_⟩
      obtain ⟨-, hmapM⟩ := Option.ite_none_right_eq_some.mp hnew
      obtain ⟨hall, rfl⟩ := mapM_eq_some_iff.mp hmapM
      have hrow : rows.map (columns sv db) = b.map (row sv runId now db) := by
        have hbind := congrArg (List.map fun p => p.bind (columns sv db)) hparameters
        rwa [List.map_map, List.map_map] at hbind
      rw [List.map_append, map_some_filterMap hall, hrow]

/-- Handling the events in their order keeps the order of the lines. -/
theorem rowsInOrder (db : RunLogs Run Time) {events : List Batch} (h : events.flatten.Pairwise Before) :
    RowsInOrder sv runId now db events := by
  have hhandled : ∀ db : RunLogs Run Time, ∃ ls : List Line, ls.Sublist events.flatten ∧
      (handled sv runId now db events).rows.map some = db.rows.map some ++ ls.map (row sv runId now db) := by
    clear h db
    induction events with
    | nil => exact fun db => ⟨[], List.Sublist.refl _, (List.append_nil _).symm⟩
    | cons b events ih =>
      intro db
      obtain ⟨ls, hls, hruns, hrows⟩ := storeLogBatch_rows sv runId now db b
      obtain ⟨rest, hrest, hmore⟩ := ih (storeLogBatch sv db runId (b.map fun l => ⟨element l, now⟩))
      refine ⟨ls ++ rest, hls.append hrest, ?_⟩
      rw [handled, List.foldl_cons]
      refine hmore.trans ?_
      rw [hrows, List.map_append, List.append_assoc]
      congr 2
      exact List.map_congr_left fun l _ => row_congr hruns l
  obtain ⟨ls, hls, hrows⟩ := hhandled db
  exact ⟨ls, hls, h.sublist hls, hrows⟩

end Stored

section Order
variable {c} {s t : System} {a : Act}

/-- What the buffer has handed over and what has been published is in turn. -/
structure Ordered (s : System) : Prop where
  handed : InTurn Before s.buffer.handed.flatten s.buffer.held
  published : InTurn Before s.published.flatten s.waiting
  numbered : Numbered s.buffer
  accounted : Accounted s.buffer
  publishedHanded : ∀ b ∈ s.published, b ∈ s.buffer.handed
  waitingHanded : ∀ k b, s.waiting k = some b → b ∈ s.buffer.handed

theorem lines_before {b : LogBuffer.State} (hb : Numbered b) : b.lines.Pairwise Before := by
  rw [List.pairwise_iff_getElem]
  intro i j hi hj hij _
  rw [hb.lines_eq (List.getElem?_eq_getElem hi), hb.lines_eq (List.getElem?_eq_getElem hj)]
  omega

theorem handed_before_lines {b : LogBuffer.State} (hb : Numbered b) (hacc : Accounted b) :
    ∀ x ∈ b.handed.flatten, ∀ y ∈ b.lines, Before x y := by
  intro x hx y hy _
  have htaken : x ∈ b.taken.flatten := hacc.flatten.mem_iff.mpr (by
    rw [List.flatten_append]
    exact List.mem_append_left _ hx)
  obtain ⟨j, hj⟩ := List.mem_iff_getElem?.mp hy
  have hlt := hb.taken_lt htaken
  rw [hb.lines_eq hj]
  omega

theorem buffer_inTurn {b : LogBuffer.State} {x : LogBuffer.Act} {u : LogBuffer.State} (hb : Numbered b) (hacc : Accounted b)
    (hturn : InTurn Before b.handed.flatten b.held) (h : LogBuffer.step c b x = some u)
    (hfore : ∀ i, x = .deliver i → Foremost Before b.held i) : InTurn Before u.handed.flatten u.held := by
  cases step_move h with
  | append _ hq =>
    refine hturn.mono fun j b' hj => ?_
    obtain ⟨-, hq'⟩ | ⟨-, hj⟩ := held_goto hj
    · cases hq.symm.trans hq'
    · exact hj
  | turn _ _ _ _ hq =>
    refine hturn.mono fun j b' hj => ?_
    obtain ⟨-, hq'⟩ | ⟨-, hj⟩ := held_goto hj
    · cases hq.symm.trans hq'
    · exact hj
  | take =>
    refine hturn.enter (lines_before hb) (handed_before_lines hb hacc) fun j b' hj => ?_
    obtain ⟨-, hq'⟩ | ⟨-, hj⟩ := held_goto hj
    · exact .inl (Option.some.inj hq').symm
    · exact .inr hj
  | deliver hi =>
    change InTurn Before (b.handed ++ [_]).flatten _
    rw [List.flatten_append, List.flatten_singleton]
    refine hturn.leave (held_eq_some.mpr hi) (hfore _ rfl) fun j b' hj => ?_
    obtain ⟨-, hq'⟩ | ⟨hne, hj⟩ := held_goto hj
    · cases hq'
    · exact ⟨hne, hj⟩

theorem handed_mono {b u : LogBuffer.State} {x : LogBuffer.Act} (h : LogBuffer.step c b x = some u) :
    ∀ d ∈ b.handed, d ∈ u.handed := by
  intro d hd
  cases step_move h with
  | append | turn | take => exact hd
  | deliver => exact List.mem_append_left _ hd

theorem Ordered.published_before (hs : Ordered s) {i : ℕ} {b : Batch} (hi : s.buffer.held i = some b) :
    ∀ x ∈ s.published.flatten, ∀ y ∈ b, Before x y := by
  intro x hx
  obtain ⟨d, hd, hxd⟩ := List.mem_flatten.mp hx
  exact hs.handed.ahead i b hi x (List.mem_flatten.mpr ⟨d, hs.publishedHanded d hd, hxd⟩)

theorem handed_deliver {b u : LogBuffer.State} {i : ℕ} {d : Batch} (h : LogBuffer.step c b (.deliver i) = some u)
    (hi : b.held i = some d) : d ∈ u.handed := by
  simp only [LogBuffer.step, hi] at h
  cases h
  exact List.mem_append_right _ List.mem_cons_self

/-- A coroutine that ends leaves the others where they are. -/
theorem waiting_set {k j : ℕ} {b : Batch} {ds : List Batch} (h : System.waiting ⟨s.buffer, s.tasks.set k none, ds⟩ j = some b) :
    j ≠ k ∧ s.waiting j = some b := by
  have hj : (s.tasks.set k none)[j]? = some (some b) := Option.join_eq_some_iff.mp h
  obtain ⟨-, hnone⟩ | ⟨hne, hj⟩ := Parties.getElem?_set_cases hj
  · cases hnone
  · exact ⟨hne, Option.join_eq_some_iff.mpr hj⟩

/-- A batch that waits is one that waited or the one that is being handed over. -/
theorem waiting_append {x : LogBuffer.Act} {u : LogBuffer.State} {k : ℕ} {b : Batch}
    (h : System.waiting ⟨u, s.tasks ++ scheduled s.buffer x, s.published⟩ k = some b) :
    (∃ i, x = .deliver i ∧ s.buffer.held i = some b) ∨ s.waiting k = some b := by
  have hk : (s.tasks ++ scheduled s.buffer x)[k]? = some (some b) := Option.join_eq_some_iff.mp h
  cases x with
  | deliver i =>
    obtain ⟨-, hheld⟩ | hk := Parties.getElem?_append_cases hk
    · exact .inl ⟨i, rfl, hheld.symm⟩
    · exact .inr (Option.join_eq_some_iff.mpr hk)
  | append | flush | stop | wake | test | exit | take =>
    rw [scheduled, List.append_nil] at hk
    · exact .inr (Option.join_eq_some_iff.mpr hk)
    · exact nofun

theorem step_ordered (hs : Ordered s) (h : step c s a = some t) (hfore : NotOvertaking s a) : Ordered t := by
  cases a with
  | buffer x =>
    obtain ⟨u, hu, rfl⟩ := Option.map_eq_some_iff.mp h
    have hmono := handed_mono hu
    refine ⟨?handed, ⟨hs.published.ordered, ?batch, ?ahead⟩, step_numbered hs.numbered hu,
      step_accounted hs.accounted hu, fun b hb => hmono b (hs.publishedHanded b hb), ?waiting⟩
    case handed =>
      refine buffer_inTurn hs.numbered hs.accounted hs.handed hu ?_
      rintro i rfl
      exact hfore
    case batch =>
      intro k b hk
      obtain ⟨i, -, hi⟩ | hk := waiting_append hk
      · exact hs.handed.batch i b hi
      · exact hs.published.batch k b hk
    case ahead =>
      intro k b hk
      obtain ⟨i, -, hi⟩ | hk := waiting_append hk
      · exact hs.published_before hi
      · exact hs.published.ahead k b hk
    case waiting =>
      intro k b hk
      obtain ⟨i, rfl, hi⟩ | hk := waiting_append hk
      · exact handed_deliver hu hi
      · exact hmono b (hs.waitingHanded k b hk)
  | refused i =>
    obtain ⟨u, hu, rfl⟩ := Option.map_eq_some_iff.mp h
    have hmono := handed_mono hu
    refine ⟨?_, hs.published, step_numbered hs.numbered hu, step_accounted hs.accounted hu,
      fun b hb => hmono b (hs.publishedHanded b hb), fun k b hk => hmono b (hs.waitingHanded k b hk)⟩
    refine buffer_inTurn hs.numbered hs.accounted hs.handed hu ?_
    intro j hj
    cases hj
    exact hfore
  | publish k =>
    obtain ⟨b, hb, rfl⟩ := Option.map_eq_some_iff.mp h
    refine ⟨hs.handed, ?_, hs.numbered, hs.accounted, ?_, fun j d hj => hs.waitingHanded j d (waiting_set hj).2⟩
    · rw [List.flatten_append, List.flatten_singleton]
      exact hs.published.leave hb hfore fun j d hj => waiting_set hj
    · intro d hd
      obtain hd | hd := List.mem_append.mp hd
      · exact hs.publishedHanded d hd
      · rw [List.mem_singleton.mp hd]
        exact hs.waitingHanded k b hb
  | fail k =>
    obtain ⟨b, hb, rfl⟩ := Option.map_eq_some_iff.mp h
    exact ⟨hs.handed, hs.published.mono fun j d hj => (waiting_set hj).2, hs.numbered, hs.accounted,
      hs.publishedHanded, fun j d hj => hs.waitingHanded j d (waiting_set hj).2⟩

theorem initial_ordered (n : ℕ) (now : ℤ) : Ordered (initial n now) where
  handed := inTurn_nil fun i => by
    rw [Option.eq_none_iff_forall_ne_some]
    intro b hb
    have hidle := List.mem_replicate.mp (List.mem_of_getElem? (held_eq_some.mp hb))
    cases hidle.2
  published := inTurn_nil fun _ => rfl
  numbered j l hl := by cases hl
  accounted := by simp [Accounted, initial, LogBuffer.initial]
  publishedHanded b hb := by cases hb
  waitingHanded k b hb := by cases hb

end Order

/-- The lines of each thread have been handed over and published in their order, and
so have their rows if the events are handled in theirs. -/
def InOrder {Run Time : Type} [DecidableEq Run] (sv : Orchestrator.LogBatches.Services Run Time)
    (db : Orchestrator.LogBatches.RunLogs Run Time) (runId : Value) (now : Str) (s : System) : Prop :=
  s.buffer.handed.flatten.Pairwise Before ∧ s.published.flatten.Pairwise Before ∧ RowsInOrder sv runId now db s.published

/-- In every run in which no batch is overtaken, the lines stay in order throughout. -/
theorem lines_in_order {Run Time : Type} [DecidableEq Run] (sv : Orchestrator.LogBatches.Services Run Time)
    (db : Orchestrator.LogBatches.RunLogs Run Time) (runId : Value) (now : Str) {n : ℕ} {start : ℤ} {as : List Act}
    (h : Always (step c) (fun s a _ => NotOvertaking s a) (initial n start) as) :
    Always (step c) (fun _ _ t => InOrder sv db runId now t) (initial n start) as := by
  refine always_of_invariant ?_ (initial_ordered n start) h
  intro s a t hs ht hfore
  have hordered := step_ordered hs ht hfore
  exact ⟨⟨hordered.handed.ordered, hordered.published.ordered, rowsInOrder db hordered.published.ordered⟩, hordered⟩

def say (i digit : ℕ) : Act := .buffer (.append i [0x61] [0x69] [Fin.ofNat _ (0x30 + digit)] [0x30])

/-- One thread appends a line, flushes it and then flushes another one. -/
def oneByOne : List Act :=
  [say 1 1, .buffer (.flush 1), .buffer (.take 1 1), .buffer (.deliver 1), .publish 0, say 1 2, .buffer (.flush 1),
    .buffer (.take 1 2), .buffer (.deliver 1), .publish 1]

theorem lines_in_order_oneByOne : Always (step ⟨50, 2⟩)
    (fun _ _ t => InOrder Orchestrator.LogBatches.sample ⟨[1], []⟩ Orchestrator.LogBatches.sampleRun [] t)
    (initial 1 0) oneByOne :=
  lines_in_order _ _ _ _ _ (by decide)

/-- The timer's thread has taken a line when another one is appended and flushed. -/
def overtaken : List Act :=
  [say 1 1, .buffer .wake, .buffer (.test 2), .buffer (.take 0 2), say 1 2, .buffer (.flush 1), .buffer (.take 1 2),
    .buffer (.deliver 1)]

theorem overtaken_line_late : ¬ ∀ (n : ℕ) (start : ℤ) (as : List Act), Always (step ⟨50, 2⟩)
    (fun _ _ t => InOrder Orchestrator.LogBatches.sample ⟨[1], []⟩ Orchestrator.LogBatches.sampleRun [] t)
    (initial n start) as := by
  intro h
  have hrun : (exec (step ⟨50, 2⟩) (initial 1 0) (overtaken ++ [.buffer (.deliver 0)])).map
      (fun t => decide (t.buffer.handed.flatten.Pairwise Before)) = some false := by decide
  obtain ⟨t, ht, hlate⟩ := Option.map_eq_some_iff.mp hrun
  obtain ⟨u, hu, hut⟩ := exec_snoc_iff.mp ht
  exact of_decide_eq_false hlate ((h 1 0 (overtaken ++ [.buffer (.deliver 0)])).at hu hut).1

end ReleaseValidation.SandboxManager.LogOrder
