import ReleaseValidation.Foundations.JsonTexts
import ReleaseValidation.Foundations.Parties
import ReleaseValidation.Foundations.Runs

/-! # The buffer for log lines

Threads append lines to a `LogBatchBuffer`. A flush takes the buffered lines under the lock and
hands them to the callback after the lock is released. An append that fills the buffer flushes
before it returns, `stop` does after it has set the event of the timer, and the timer's thread
flushes when the last flush is old. Between any two of these steps the other threads may run.
The timer's thread is the one at position 0.
-/
namespace ReleaseValidation.SandboxManager.LogBuffer
open JsonTexts Parties Runs

structure Entry where
  source : Str
  level : Str
  message : Str
  ts : Str
  deriving DecidableEq, Repr

/-- The dict that `append` builds; `ts` is `datetime.now().isoformat()`. -/
def entry (source level message ts : Str) : Entry := ⟨source.take 64, level, message.take 4096, ts⟩

/-- A buffered entry, with the thread that has appended it and its place among all appended ones. -/
structure Line where
  thread : ℕ
  number : ℕ
  entry : Entry
  deriving DecidableEq, Repr

abbrev Batch := List Line

/-- What a thread does next. -/
inductive Phase
  /-- Any call; for the timer, the end of its wait. -/
  | idle
  /-- The timer's wait has timed out. -/
  | woken
  /-- It is about to enter `_do_flush`. -/
  | flushing
  /-- It has left the lock with a batch for the callback. -/
  | holding (batch : Batch)
  /-- The loop of the timer has ended. -/
  | ended
  deriving DecidableEq, Repr

def Phase.batch : Phase → Option Batch
  | .holding b => some b
  | _ => none

@[simp] theorem batch_idle : Phase.idle.batch = none := rfl

@[simp] theorem batch_flushing : Phase.flushing.batch = none := rfl

@[simp] theorem batch_holding (b : Batch) : (Phase.holding b).batch = some b := rfl

/-- `max_lines` and `max_age_s`. -/
structure Config where
  maxLines : ℤ
  maxAge : ℤ

structure State where
  lines : List Line
  stopped : Bool
  lastFlush : ℤ
  threads : List Phase
  /-- The batches that flushes have taken. -/
  taken : List Batch
  /-- The batches that the callback has been called with. -/
  handed : List Batch

/-- A buffer of which `n` threads make calls, created at `now`. -/
def initial (n : ℕ) (now : ℤ) : State := ⟨[], false, now, List.replicate (n + 1) .idle, [], []⟩

inductive Act
  | append (i : ℕ) (source level message ts : Str)
  | flush (i : ℕ)
  | stop (i : ℕ)
  | wake
  | test (now : ℤ)
  | exit
  /-- The locked part of `_do_flush`. -/
  | take (i : ℕ) (now : ℤ)
  | deliver (i : ℕ)
  deriving DecidableEq, Repr

namespace State

/-- The lines in the order in which they have been appended. -/
def history (s : State) : List Line := s.taken.flatten ++ s.lines

def goto (s : State) (i : ℕ) (p : Phase) : State := { s with threads := s.threads.set i p }

/-- The thread can make a call. -/
def Free (s : State) (i : ℕ) : Prop := i ≠ 0 ∧ s.threads[i]? = some .idle

instance (s : State) (i : ℕ) : Decidable (s.Free i) := inferInstanceAs (Decidable (_ ∧ _))

/-- The batch in the hands of a thread. -/
def held (s : State) (i : ℕ) : Option Batch := s.threads[i]?.bind Phase.batch

end State

variable (c : Config)

def step (s : State) : Act → Option State
  | .append i source level message ts =>
    if s.Free i then
      let lines := s.lines ++ [⟨i, s.history.length, entry source level message ts⟩]
      some ({ s with lines := lines }.goto i (if c.maxLines ≤ lines.length then .flushing else .idle))
    else none
  | .flush i => if s.Free i then some (s.goto i .flushing) else none
  | .stop i => if s.Free i then some ({ s with stopped := true }.goto i .flushing) else none
  | .wake => if s.threads[0]? = some .idle ∧ s.stopped = false then some (s.goto 0 .woken) else none
  | .test now =>
    if s.threads[0]? = some .woken then some (s.goto 0 (if c.maxAge ≤ now - s.lastFlush then .flushing else .idle))
    else none
  | .exit => if s.threads[0]? = some .idle ∧ s.stopped = true then some (s.goto 0 .ended) else none
  | .take i now =>
    if s.threads[i]? = some .flushing then
      if s.lines = [] then some (s.goto i .idle)
      else some ({ s with lines := [], lastFlush := now, taken := s.taken ++ [s.lines] }.goto i (.holding s.lines))
    else none
  | .deliver i =>
    match s.held i with
    | some b => some ({ s with handed := s.handed ++ [b] }.goto i .idle)
    | none => none

/-- The line that the action appends, when `k` have been appended before. -/
def Act.line (k : ℕ) : Act → Option Line
  | .append i source level message ts => some ⟨i, k, entry source level message ts⟩
  | _ => none

/-- The lines that the calls of a run append, in their order. -/
def appended : ℕ → List Act → List Line
  | _, [] => []
  | k, a :: as => (a.line k).toList ++ appended (k + (a.line k).toList.length) as

/-- What a step can do: append a line, take a batch, hand one over, or move a thread that has none. -/
inductive Move (s : State) : Act → State → Prop
  | append {i : ℕ} {source level message ts : Str} {q : Phase} (free : s.Free i) (unbatched : q.batch = none) :
      Move s (.append i source level message ts)
        ({ s with lines := s.lines ++ [(⟨i, s.history.length, entry source level message ts⟩ : Line)] }.goto i q)
  | turn {a : Act} {i : ℕ} {q : Phase} {stopped : Bool} (p : Phase) (line : ∀ k, a.line k = none) (at_ : s.threads[i]? = some p)
      (before : p.batch = none) (after : q.batch = none) (empty : p = .flushing → s.lines = []) :
      Move s a ({ s with stopped := stopped }.goto i q)
  | take {i : ℕ} {now : ℤ} (at_ : s.threads[i]? = some .flushing) (lines : s.lines ≠ []) :
      Move s (.take i now)
        ({ s with lines := [], lastFlush := now, taken := s.taken ++ [s.lines] }.goto i (.holding s.lines))
  | deliver {i : ℕ} {b : Batch} (at_ : s.threads[i]? = some (.holding b)) :
      Move s (.deliver i) ({ s with handed := s.handed ++ [b] }.goto i .idle)

variable {c} {s t : State} {a : Act}

theorem held_eq_some {i : ℕ} {b : Batch} : s.held i = some b ↔ s.threads[i]? = some (.holding b) := by
  rw [State.held, Option.bind_eq_some_iff]
  constructor
  · rintro ⟨p, hp, hb⟩
    cases p with
    | holding => cases hb; exact hp
    | idle | woken | flushing | ended => cases hb
  · exact fun h => ⟨_, h, rfl⟩

theorem held_goto {i j : ℕ} {q : Phase} {b : Batch} (h : (s.goto i q).held j = some b) :
    j = i ∧ q.batch = some b ∨ j ≠ i ∧ s.held j = some b := by
  obtain ⟨p, hp, hb⟩ := Option.bind_eq_some_iff.mp h
  obtain ⟨rfl, rfl⟩ | ⟨hne, hj⟩ := getElem?_set_cases hp
  · exact .inl ⟨rfl, hb⟩
  · exact .inr ⟨hne, Option.bind_eq_some_iff.mpr ⟨p, hj, hb⟩⟩

theorem step_move (h : step c s a = some t) : Move s a t := by
  cases a with
  | append i source level message ts =>
    obtain ⟨hfree, ht⟩ := Option.ite_none_right_eq_some.mp h
    cases ht
    refine .append hfree ?_
    split <;> rfl
  | flush i =>
    obtain ⟨hfree, ht⟩ := Option.ite_none_right_eq_some.mp h
    cases ht
    exact .turn _ (fun _ => rfl) hfree.2 rfl rfl nofun
  | stop i =>
    obtain ⟨hfree, ht⟩ := Option.ite_none_right_eq_some.mp h
    cases ht
    exact .turn _ (fun _ => rfl) hfree.2 rfl rfl nofun
  | wake =>
    obtain ⟨hidle, ht⟩ := Option.ite_none_right_eq_some.mp h
    cases ht
    exact .turn _ (fun _ => rfl) hidle.1 rfl rfl nofun
  | test now =>
    obtain ⟨hwoken, ht⟩ := Option.ite_none_right_eq_some.mp h
    cases ht
    exact .turn _ (fun _ => rfl) hwoken rfl (by split <;> rfl) nofun
  | exit =>
    obtain ⟨hidle, ht⟩ := Option.ite_none_right_eq_some.mp h
    cases ht
    exact .turn _ (fun _ => rfl) hidle.1 rfl rfl nofun
  | take i now =>
    obtain ⟨hflushing, ht⟩ := Option.ite_none_right_eq_some.mp h
    split at ht
    next hempty =>
      cases ht
      exact .turn _ (fun _ => rfl) hflushing rfl rfl fun _ => hempty
    next hlines =>
      cases ht
      exact .take hflushing hlines
  | deliver i =>
    simp only [step] at h
    split at h
    next b hb =>
      cases h
      exact .deliver (held_eq_some.mp hb)
    next => cases h

/-! ### The lines are in the batches or in the buffer -/

theorem step_history (h : step c s a = some t) : t.history = s.history ++ (a.line s.history.length).toList := by
  cases step_move h with
  | append => simp [State.history, State.goto, Act.line]
  | turn _ hline => simp [State.history, State.goto, hline]
  | take => simp [State.history, State.goto, Act.line]
  | deliver => simp [State.history, State.goto, Act.line]

theorem exec_history_eq {as : List Act} (h : exec (step c) s as = some t) :
    t.history = s.history ++ appended s.history.length as := by
  induction as generalizing s with
  | nil =>
    cases h
    exact (List.append_nil _).symm
  | cons a as ih =>
    obtain ⟨u, hu, hrest⟩ := Option.bind_eq_some_iff.mp h
    rw [ih hrest, step_history hu, appended, List.append_assoc, List.length_append]

/-- Every batch that has been taken has been handed over or is in the hands of a thread. -/
def Accounted (s : State) : Prop := s.taken.Perm (s.handed ++ s.threads.filterMap Phase.batch)

theorem accounted_goto {taken handed : List Batch} {threads : List Phase} {i : ℕ} {p : Phase} (q : Phase)
    (hs : taken.Perm (handed ++ threads.filterMap Phase.batch)) (hi : threads[i]? = some p) :
    (taken ++ q.batch.toList).Perm
      (handed ++ p.batch.toList ++ (threads.set i q).filterMap Phase.batch) := by
  have hset : ((threads.set i q).filterMap Phase.batch ++ p.batch.toList).Perm
      (threads.filterMap Phase.batch ++ q.batch.toList) := filterMap_set_perm hi
  have hold : (taken ++ q.batch.toList).Perm (handed ++ (threads.filterMap Phase.batch ++ q.batch.toList)) := by
    rw [← List.append_assoc]
    exact hs.append_right _
  refine hold.trans ((hset.symm.append_left _).trans ?_)
  rw [List.append_assoc]
  exact List.perm_append_comm.append_left _

theorem step_accounted (hs : Accounted s) (h : step c s a = some t) : Accounted t := by
  cases step_move h with
  | @append i _ _ _ _ q hfree hq => simpa [Accounted, State.goto, hq] using accounted_goto q hs hfree.2
  | @turn _ _ q _ p _ hi hp hq => simpa [Accounted, State.goto, hp, hq] using accounted_goto q hs hi
  | take hi => simpa [Accounted, State.goto] using accounted_goto (.holding s.lines) hs hi
  | deliver hi => simpa [Accounted, State.goto] using accounted_goto .idle hs hi

/-! ### What a stop leaves behind -/

/-- The thread has not yet emptied the buffer in its flush, or the first `k` lines have left the buffer. -/
def Emptying (i k : ℕ) (s : State) : Prop :=
  k ≤ s.history.length ∧ (s.threads[i]? = some .flushing ∨ k ≤ s.taken.flatten.length)

theorem step_emptying {i k : ℕ} (hs : Emptying i k s) (h : step c s a = some t) : Emptying i k t := by
  obtain ⟨hk, hs⟩ := hs
  have hhistory : k ≤ t.history.length := by
    rw [step_history h, List.length_append]
    omega
  refine ⟨hhistory, ?_⟩
  have hkept : ∀ {j p}, s.threads[j]? = some p → p ≠ .flushing → ∀ q,
      s.threads[i]? = some .flushing → (s.threads.set j q)[i]? = some .flushing := by
    intro j p hj hp q hi
    rw [List.getElem?_set_ne]
    · exact hi
    · rintro rfl
      cases hj.symm.trans hi
      exact hp rfl
  cases step_move h with
  | append hfree => exact hs.imp_left (hkept hfree.2 nofun _)
  | turn p _ hj _ _ hempty =>
    by_cases hp : p = .flushing
    · refine .inr ?_
      rwa [State.history, hempty hp, List.append_nil] at hk
    · exact hs.imp_left (hkept hj hp _)
  | take =>
    refine .inr ?_
    change k ≤ (s.taken ++ [s.lines]).flatten.length
    rwa [List.flatten_append, List.flatten_singleton]
  | deliver hj => exact hs.imp_left (hkept hj nofun _)

/-- Every line bears its place among the appended ones. -/
def Numbered (s : State) : Prop := ∀ (j : ℕ) (l : Line), s.history[j]? = some l → l.number = j

theorem number_line {k : ℕ} {l : Line} (h : a.line k = some l) : l.number = k := by
  cases a with
  | append =>
    cases h
    rfl
  | flush | stop | wake | test | exit | take | deliver => cases h

theorem step_numbered (hs : Numbered s) (h : step c s a = some t) : Numbered t := by
  intro j l hl
  rw [step_history h] at hl
  by_cases hj : j < s.history.length
  · rw [List.getElem?_append_left hj] at hl
    exact hs j l hl
  · rw [List.getElem?_append_right (Nat.le_of_not_lt hj)] at hl
    obtain ⟨hlast, hmem⟩ := List.getElem?_eq_some_iff.mp hl
    have hline : a.line s.history.length = some l := Option.mem_toList.mp (hmem ▸ List.getElem_mem hlast)
    have hshort : (a.line s.history.length).toList.length = 1 := by
      rw [hline]
      rfl
    rw [number_line hline]
    omega

theorem Numbered.taken_lt (hs : Numbered s) {l : Line} (hl : l ∈ s.taken.flatten) : l.number < s.taken.flatten.length := by
  obtain ⟨j, hj⟩ := List.mem_iff_getElem?.mp hl
  have hlt : j < s.taken.flatten.length := (List.getElem?_eq_some_iff.mp hj).1
  rw [hs j l (by rw [State.history, List.getElem?_append_left hlt]; exact hj)]
  exact hlt

theorem Numbered.lines_eq (hs : Numbered s) {j : ℕ} {l : Line} (hl : s.lines[j]? = some l) :
    l.number = s.taken.flatten.length + j := by
  apply hs
  rw [State.history, List.getElem?_append_right (Nat.le_add_right _ _), Nat.add_sub_cancel_left]
  exact hl

/-- In every run the lines that flushes have taken, and then those in the buffer, are the appended
ones; what has been taken has been handed over or is about to be; and once a `stop` has
returned, the lines appended before its call have left the buffer. -/
theorem lines_partitioned {n : ℕ} {now : ℤ} {as : List Act} (h : exec (step c) (initial n now) as = some t) :
    t.taken.flatten ++ t.lines = appended 0 as ∧ Accounted t ∧
      ∀ pre i post, as = pre ++ .stop i :: post → t.threads[i]? = some .idle →
        ∀ l ∈ t.lines, (appended 0 pre).length ≤ l.number := by
  have hhistory : t.taken.flatten ++ t.lines = appended 0 as := exec_history_eq h
  have hinitial : Accounted (initial n now) := by
    simp [Accounted, initial]
  refine ⟨hhistory, exec_invariant (fun _ _ _ => step_accounted) hinitial h, ?_⟩
  rintro pre i post rfl hidle l hl
  obtain ⟨u, hpre, hrest⟩ := exec_append_iff.mp h
  obtain ⟨v, hstop, hpost⟩ := Option.bind_eq_some_iff.mp hrest
  have hu : u.history = appended 0 pre := exec_history_eq hpre
  have hv : Emptying i (appended 0 pre).length v := by
    obtain ⟨hfree, hvu⟩ := Option.ite_none_right_eq_some.mp hstop
    cases hvu
    exact ⟨by rw [← hu]; exact le_rfl, .inl (getElem?_set_of_some hfree.2)⟩
  obtain ⟨-, hflushing | hleft⟩ := exec_invariant (fun _ _ _ => step_emptying) hv hpost
  · cases hidle.symm.trans hflushing
  · obtain ⟨m, hm⟩ := List.mem_iff_getElem?.mp hl
    have hnumbered : Numbered t := exec_invariant (fun _ _ _ => step_numbered) (fun _ _ hl => by cases hl) h
    rw [hnumbered.lines_eq hm]
    omega

/-- A full buffer is taken by the second thread; the first one appends again and stops the buffer
before that batch is handed over. -/
def twoBatches : List Act :=
  [.append 1 [0x61] [0x69] [0x31] [0x30], .append 2 [0x62] [0x69] [0x32] [0x30], .take 2 5,
    .append 1 [0x61] [0x69] [0x33] [0x31], .stop 1, .take 1 6, .deliver 1, .deliver 2, .exit]

theorem lines_partitioned_two : ∃ t, exec (step ⟨2, 2⟩) (initial 2 0) twoBatches = some t ∧
    t.handed.map (fun b => b.map Line.number) = [[2], [0, 1]] ∧
    t.taken.flatten ++ t.lines = appended 0 twoBatches ∧ Accounted t ∧
      ∀ pre i post, twoBatches = pre ++ .stop i :: post → t.threads[i]? = some .idle →
        ∀ l ∈ t.lines, (appended 0 pre).length ≤ l.number := by
  have hrun : (exec (step ⟨2, 2⟩) (initial 2 0) twoBatches).map (fun t => t.handed.map fun b => b.map Line.number) =
      some [[2], [0, 1]] := by decide
  obtain ⟨t, ht, hhanded⟩ := Option.map_eq_some_iff.mp hrun
  exact ⟨t, ht, hhanded, lines_partitioned ht⟩

end ReleaseValidation.SandboxManager.LogBuffer
