import Mathlib.Algebra.Group.Int.Defs
import ReleaseValidation.Foundations.Fences
import ReleaseValidation.Foundations.Keysets

/-! # Pages of the log of a run

`get_run_logs` returns the first lines of a run that pass the filters and have an id above
the cursor. The next cursor is the last id of a full page, if the run has any line above it;
whether that line passes the filters is left to the next page. The limit has an upper bound
and no lower one.
-/
namespace ReleaseValidation.Orchestrator.RunLogPages
open Fences Keysets

variable {Run Time : Type}

structure Row (Run Time : Type) where
  id : ℤ
  runId : Run
  source : String
  level : String
  message : String
  ts : Time

def Int8 (n : ℤ) : Prop := -2 ^ 63 ≤ n ∧ n < 2 ^ 63

instance (n : ℤ) : Decidable (Int8 n) := inferInstanceAs (Decidable (_ ∧ _))

/-- `orchestrator.run_logs`. -/
structure Table (Run Time : Type) where
  rows : List (Row Run Time)
  primaryKey : (rows.map Row.id).Nodup
  bigserial : ∀ r ∈ rows, Int8 r.id

/-- `uuid.UUID(run_id)`, `none` for a `ValueError`, and `ts.isoformat()`. -/
structure Services (Run Time : Type) where
  uuid : String → Option Run
  isoformat : Time → String

structure Line where
  id : ℤ
  source : String
  level : String
  message : String
  ts : String
  deriving DecidableEq, Repr

inductive Error
  | http (status : ℕ) (detail : String)
  | database (text : String)
  | indexError (text : String)
  deriving DecidableEq, Repr

structure Filters where
  source : Option String
  level : Option String

/-- `LEVEL_ORDER`. -/
def levelOrder : List (String × ℕ) := [("error", 0), ("warn", 1), ("info", 2), ("debug", 3)]

namespace Filters

/-- `[s.strip() for s in source.split(",") if s.strip()]`. -/
def splitSources (source : String) : List String :=
  (((source.toList.splitOn ',').map fun s => ((s.dropWhile white).reverse.dropWhile white).reverse).filter (· ≠ [])).map
    String.ofList

/-- `:sources`, if the condition is there. -/
def sources (f : Filters) : Option (List String) :=
  match f.source with
  | some source =>
    if source = "" then none
    else
      match splitSources source with
      | [] => none
      | ss => some ss
  | none => none

/-- `:levels`, if the condition is there. -/
def levels (f : Filters) : Option (List String) :=
  f.level.bind fun level =>
    (levelOrder.lookup level).map fun threshold => (levelOrder.filter (·.2 ≤ threshold)).map Prod.fst

/-- The conditions of the filters. -/
def keeps (f : Filters) (r : Row Run Time) : Bool :=
  (f.sources.all fun ss => r.source ∈ ss) && f.levels.all fun ls => r.level ∈ ls

/-- Every text of the filters can be sent to the database. -/
def Sendable (f : Filters) : Prop := ∀ ss ∈ f.sources, ∀ s ∈ ss, '\x00' ∉ s.toList

instance (f : Filters) : Decidable f.Sendable := inferInstanceAs (Decidable (∀ ss ∈ f.sources, _))

end Filters

section Endpoint
variable [DecidableEq Run] (sv : Services Run Time) (table : Table Run Time)

def Row.line (r : Row Run Time) : Line := ⟨r.id, r.source, r.level, r.message, sv.isoformat r.ts⟩

/-- The rows of the run that pass the filters and are above the cursor, as `ORDER BY id ASC` puts them. -/
def ordered (run : Run) (f : Filters) (afterId : Option ℤ) : List (Row Run Time) :=
  byKey Row.id (table.rows.filter fun r => r.runId = run && (∀ k ∈ afterId, k < r.id) && f.keeps r)

/-- What the first query returns. -/
def query (run : Run) (f : Filters) (afterId : Option ℤ) (limit : ℤ) : Except Error (List (Row Run Time)) :=
  if ¬ ((∀ k ∈ afterId, Int8 k) ∧ Int8 limit) then .error (.database "value out of int64 range")
  else if ¬ f.Sendable then .error (.database "invalid byte sequence for encoding \"UTF8\": 0x00")
  else if limit < 0 then .error (.database "LIMIT must not be negative")
  else .ok ((ordered table run f afterId).take limit.toNat)

/-- `get_run_logs`. -/
def getRunLogs (runId : String) (f : Filters) (afterId : Option ℤ) (limit : ℤ) : Except Error (List Line × Option ℤ) := do
  let run ← (sv.uuid runId).elim (.error (.http 400 "Invalid run_id")) .ok
  let rows ← query table run f afterId limit
  let nextCursor ←
    if rows.length = limit then
      match rows.getLast? with
      | none => .error (.indexError "list index out of range")
      | some last => .ok (if table.rows.any fun r => r.runId = run && last.id < r.id then some last.id else none)
    else .ok none
  .ok (rows.map (Row.line sv), nextCursor)

/-- The endpoint, whose parameters are validated before. -/
def endpoint (runId : String) (f : Filters) (afterId : Option ℤ) (limit : ℤ) : Except Error (List Line × Option ℤ) :=
  if limit ≤ 500 then getRunLogs sv table runId f afterId limit else .error (.http 422 "less_than_equal")

/-- A reader who starts without a cursor and follows the next ones comes to an end, and has the
rows of the run that pass the filters, each once and in the order of their ids. -/
def ReadsExactly (runId : String) (run : Run) (f : Filters) (limit : ℤ) : Prop :=
  ∃ pages, Follows (fun c => endpoint sv table runId f c limit) none pages ∧
    ∃ rows : List (Row Run Time), rows.Perm (table.rows.filter fun r => r.runId = run && f.keeps r) ∧
      rows.Pairwise (·.id < ·.id) ∧ pages.flatten = rows.map (Row.line sv)

end Endpoint

section Pages
variable [DecidableEq Run] {sv : Services Run Time} {table : Table Run Time} {runId : String} {run : Run} {f : Filters} {limit : ℤ}

theorem ordered_eq_above (run : Run) (f : Filters) (c : Option ℤ) :
    ordered table run f c = above Row.id c (ordered table run f none) := by
  have hkeys : ((table.rows.filter fun r => r.runId = run && (∀ k ∈ (none : Option ℤ), k < r.id) && f.keeps r).map
      Row.id).Nodup := table.primaryKey.sublist (List.filter_sublist.map _)
  rw [ordered, ordered, above, ← byKey_filter hkeys, List.filter_filter]
  congr 2
  funext r
  simp only [Option.not_mem_none, false_implies, implies_true, decide_true, Bool.and_true]
  rw [Bool.and_left_comm, Bool.and_assoc]

theorem ordered_strict (run : Run) (f : Filters) (c : Option ℤ) :
    (ordered table run f c).Pairwise (·.id < ·.id) :=
  byKey_strict (table.primaryKey.sublist (List.filter_sublist.map _))

theorem ordered_none_perm (run : Run) (f : Filters) :
    (ordered table run f none).Perm (table.rows.filter fun r => r.runId = run && f.keeps r) := by
  simpa [ordered] using byKey_perm Row.id (table.rows.filter fun r => r.runId = run && f.keeps r)

/-- The lines that a reader should see. -/
def lines (sv : Services Run Time) (table : Table Run Time) (run : Run) (f : Filters) : List Line :=
  (ordered table run f none).map (Row.line sv)

theorem lines_strict : (lines sv table run f).Pairwise (·.id < ·.id) :=
  List.pairwise_map.mpr (ordered_strict run f none)

theorem above_lines (c : Option ℤ) :
    above Line.id c (lines sv table run f) = (ordered table run f c).map (Row.line sv) := by
  rw [ordered_eq_above, above, lines, List.filter_map]
  rfl

/-- The cursor of an answer is the id of a line, which the database takes. -/
theorem int8_cursor {c : Option ℤ} (hc : IsCursor Line.id (lines sv table run f) c) : ∀ k ∈ c, Int8 k := by
  intro k hk
  obtain ⟨l, hl, rfl⟩ := hc k hk
  obtain ⟨r, hr, rfl⟩ := List.mem_map.mp hl
  exact table.bigserial r (List.mem_filter.mp ((ordered_none_perm run f).mem_iff.mp hr)).1

/-- A line above the last one of the run is in the run. -/
theorem ordered_nil_of_no_more {last : ℤ} (h : (table.rows.any fun r => r.runId = run && last < r.id) = false) :
    ordered table run f (some last) = [] := by
  rw [List.eq_nil_iff_forall_not_mem]
  intro r hr
  have hrow := (byKey_perm Row.id _).mem_iff.mp hr
  simp only [List.mem_filter, Option.mem_some_iff, forall_eq', Bool.and_eq_true, decide_eq_true_eq] at hrow
  have hmore : (table.rows.any fun r => r.runId = run && last < r.id) = true :=
    List.any_eq_true.mpr ⟨r, hrow.1, by simp [hrow.2.1.1, hrow.2.1.2]⟩
  rw [hmore] at h
  cases h

/-- What a page has left is what is above its last row. -/
theorem ordered_drop {c : Option ℤ} {n : ℕ} {last : Row Run Time}
    (h : ((ordered table run f c).take n).getLast? = some last) :
    ordered table run f (some last.id) = (ordered table run f c).drop n := by
  rw [ordered_eq_above run f c] at h ⊢
  rw [ordered_eq_above run f (some last.id)]
  exact above_last (ordered_strict run f none) h

theorem query_ok (table : Table Run Time) (run : Run) (hf : f.Sendable) (hlow : 1 ≤ limit) (hhigh : limit ≤ 500)
    {c : Option ℤ} (hc : ∀ k ∈ c, Int8 k) :
    query table run f c limit = .ok ((ordered table run f c).take limit.toNat) := by
  have hint8 : Int8 limit := by
    unfold Int8
    omega
  rw [query, if_neg (not_not.mpr ⟨hc, hint8⟩), if_neg (not_not.mpr hf), if_neg (by omega)]

theorem endpoint_serves (table : Table Run Time) (huuid : sv.uuid runId = some run) (hf : f.Sendable) (hlow : 1 ≤ limit)
    (hhigh : limit ≤ 500) :
    Serves Line.id (lines sv table run f) limit.toNat fun c => endpoint sv table runId f c limit := by
  intro c hc
  have hquery := query_ok table run hf hlow hhigh (int8_cursor hc)
  rw [above_lines, ← List.map_take, List.length_map]
  have hlimit : (limit.toNat : ℤ) = limit := Int.toNat_of_nonneg (by omega)
  simp only [endpoint, if_pos hhigh, getRunLogs, huuid, hquery, Option.elim, bind, Except.bind]
  set page := (ordered table run f c).take limit.toNat with hpage
  by_cases hfull : (page.length : ℤ) = limit
  · rw [if_pos hfull]
    cases hlast : page.getLast? with
    | none =>
      rw [List.getLast?_eq_none_iff] at hlast
      rw [hlast] at hfull
      simp at hfull
      omega
    | some last =>
      refine ⟨_, rfl, ?_, ?_⟩
      · intro hmore
        have hno : (table.rows.any fun r => r.runId = run && last.id < r.id) = false := by
          by_contra hany
          rw [if_pos (eq_true_of_ne_false hany)] at hmore
          cases hmore
        exact List.drop_eq_nil_iff.mp ((ordered_drop hlast).symm.trans (ordered_nil_of_no_more hno))
      · intro k hk
        obtain ⟨-, hlastid⟩ := Option.ite_none_right_eq_some.mp hk
        cases hlastid
        exact ⟨last.line sv, by rw [List.getLast?_map, hlast]; rfl, rfl⟩
  · rw [if_neg hfull]
    refine ⟨_, rfl, fun _ => ?_, nofun⟩
    rw [hpage, List.length_take] at hfull
    omega

theorem query_error (table : Table Run Time) (run : Run) (h : ¬ (1 ≤ limit ∧ f.Sendable)) (c : Option ℤ) :
    query table run f c limit = .ok [] ∧ limit = 0 ∨ ∃ e, query table run f c limit = .error e := by
  unfold query
  split
  · exact .inr ⟨_, rfl⟩
  split
  · exact .inr ⟨_, rfl⟩
  split
  · exact .inr ⟨_, rfl⟩
  next hf hneg =>
    have hzero : limit = 0 := by
      by_contra hne
      exact h ⟨by omega, not_not.mp hf⟩
    refine .inl ⟨?_, hzero⟩
    rw [hzero, Int.toNat_zero, List.take_zero]

/-- Without a positive limit there is no last row whose id could be read, and a text with a NUL is not sent. -/
theorem endpoint_error (sv : Services Run Time) (table : Table Run Time) (runId : String) (h : ¬ (1 ≤ limit ∧ f.Sendable))
    (c : Option ℤ) :
    ∃ e, endpoint sv table runId f c limit = .error e := by
  unfold endpoint
  split
  next =>
    rw [getRunLogs]
    cases sv.uuid runId with
    | none => exact ⟨_, rfl⟩
    | some run =>
      obtain ⟨hrows, rfl⟩ | ⟨e, he⟩ := query_error table run h c
      · simp only [Option.elim, bind, Except.bind, hrows]
        exact ⟨_, rfl⟩
      · simp only [Option.elim, bind, Except.bind, he]
        exact ⟨_, rfl⟩
  next => exact ⟨_, rfl⟩

/-- Following the cursors reads the log of a run exactly when the limit is positive and the sources can be sent. -/
theorem log_pages_exact_iff (huuid : sv.uuid runId = some run) (hhigh : limit ≤ 500) :
    ReadsExactly sv table runId run f limit ↔ 1 ≤ limit ∧ f.Sendable := by
  constructor
  · rintro ⟨pages, hpages, -⟩
    by_contra h
    obtain ⟨e, he⟩ := endpoint_error sv table runId h none
    obtain ⟨answer, hanswer⟩ := hpages.fetched
    cases he.symm.trans hanswer
  · rintro ⟨hlow, hf⟩
    have hserves := endpoint_serves table huuid hf hlow hhigh
    obtain ⟨pages, hpages, hflat⟩ := exists_follows lines_strict (by omega) hserves none isCursor_none
    exact ⟨pages, hpages, ordered table run f none, ordered_none_perm run f, ordered_strict run f none,
      hflat.trans (above_none _)⟩

end Pages

/-- One run, and three lines of it. -/
def threeLines : Table ℕ ℕ where
  rows := [⟨5, 0, "anvil", "info", "block 2", 12⟩, ⟨3, 0, "anvil", "info", "block 1", 11⟩,
    ⟨4, 0, "advancer", "error", "no machine", 11⟩]
  primaryKey := by decide
  bigserial := by decide

def oneRun : Services ℕ ℕ := ⟨fun s => if s = "run" then some 0 else none, toString⟩

theorem log_pages_exact_two : ReadsExactly oneRun threeLines "run" 0 ⟨some "anvil", none⟩ 2 :=
  (log_pages_exact_iff rfl (by decide)).mpr ⟨by decide, by decide⟩

/-- The endpoint admits a limit of zero, with which it looks for the last line of an empty page. -/
theorem zero_limit_raises : (0 : ℤ) ≤ 500 ∧ ¬ ReadsExactly oneRun threeLines "run" 0 ⟨none, none⟩ 0 := by
  refine ⟨by decide, ?_⟩
  rintro ⟨pages, hpages, -⟩
  obtain ⟨answer, hanswer⟩ := hpages.fetched
  have herror : endpoint oneRun threeLines "run" ⟨none, none⟩ none 0 =
      .error (.indexError "list index out of range") := rfl
  cases herror.symm.trans hanswer

end ReleaseValidation.Orchestrator.RunLogPages
