import ReleaseValidation.Foundations.Runs
import ReleaseValidation.Foundations.Views
import ReleaseValidation.Orchestrator.RunLogPages

/-! # The log viewer of the dashboard

The viewer of a run loads the first page of its log and, on demand, the pages after it. Meanwhile
the orchestrator stores one batch of lines after the other and broadcasts each when it has been
stored. The first page replaces the lines shown; later pages and the batches of the socket are put
behind them in the order in which they arrive.
-/
namespace ReleaseValidation.Dashboard.LogViewer
open Runs Keysets Views Orchestrator.RunLogPages

variable {Run Time : Type} [DecidableEq Run]

def limit : ℕ := 200
def noFilters : Filters := ⟨none, none⟩

/-- The entries of a batch, each by the id of its row; `none` if the statement failed. A live line has no id itself. -/
abbrev Batch := List (Option ℤ)

/-- What the request for a page has come to; the first page is after `none`. -/
inductive Request
  | unmounted
  | idle
  | sent (afterId : Option ℤ)
  /-- The first query of `get_run_logs` has been answered. -/
  | read (afterId : Option ℤ) (page : List ℤ)
  | answered (afterId : Option ℤ) (page : List ℤ) (nextCursor : Option ℤ)
  deriving DecidableEq, Repr

/-- The state of `LogViewer`; a line is known by the id of its row. -/
structure View where
  request : Request
  lines : List (Option ℤ)
  nextCursor : Option ℤ

structure State (Run Time : Type) where
  table : Table Run Time
  /-- The batch of the run that `_handle` has stored, or failed to, and has not broadcast yet. -/
  handled : Option Batch
  /-- The batches on their way, while the socket is registered. -/
  socket : Option (List Batch)
  view : View

def opened (table : Table Run Time) : State Run Time := ⟨table, none, none, .unmounted, [], none⟩

/-- Ids of a sequence, one INSERT after the other. -/
def Fresh (table : Table Run Time) (rows : List (Row Run Time)) : Prop :=
  rows.Pairwise (·.id < ·.id) ∧ ∀ r ∈ rows, Int8 r.id ∧ ∀ r' ∈ table.rows, r'.id < r.id

instance (table : Table Run Time) (rows : List (Row Run Time)) : Decidable (Fresh table rows) :=
  inferInstanceAs (Decidable (_ ∧ _))

def insertBatch (table : Table Run Time) (rows : List (Row Run Time)) (h : Fresh table rows) : Table Run Time where
  rows := table.rows ++ rows
  primaryKey := by
    rw [List.map_append, List.nodup_append]
    refine ⟨table.primaryKey, List.pairwise_map.mpr (h.1.imp fun hlt => hlt.ne), ?_⟩
    intro i hi j hj
    obtain ⟨r', hr', rfl⟩ := List.mem_map.mp hi
    obtain ⟨r, hr, rfl⟩ := List.mem_map.mp hj
    exact ((h.2 r hr).2 r' hr').ne
  bigserial := by
    intro r hr
    rcases List.mem_append.mp hr with hr | hr
    · exact table.bigserial r hr
    · exact (h.2 r hr).1

inductive Act (Run Time : Type)
  /-- The INSERT of a batch of the run. -/
  | store (rows : List (Row Run Time))
  | storeFails (entries : ℕ)
  | storeOther (rows : List (Row Run Time))
  /-- `publish_live`; a batch that is not relayed to a registered socket is gone. -/
  | publish (ok : Bool)
  | mount
  | connect
  | close
  | deliver
  | query
  | more
  | answer
  | fail
  | loadNewer

/-- The next cursor of a page, by the second query. -/
def nextCursor (run : Run) (table : Table Run Time) (page : List ℤ) : Option ℤ :=
  if page.length = limit then
    page.getLast?.bind fun last => if table.rows.any fun r => r.runId = run && last < r.id then some last else none
  else none

/-- `setLines` and `setNextCursor` with an answer. -/
def View.show (v : View) (afterId : Option ℤ) (page : List ℤ) (next : Option ℤ) : View :=
  ⟨.idle, (if afterId = none then [] else v.lines) ++ page.map some, next⟩

section Steps
variable (run : Run)

def step (s : State Run Time) : Act Run Time → Option (State Run Time)
  | .store rows =>
    if h : Fresh s.table rows then
      if s.handled = none ∧ ∀ r ∈ rows, r.runId = run then
        some { s with table := insertBatch s.table rows h, handled := some (rows.map fun r => some r.id) }
      else none
    else none
  | .storeFails entries =>
    if s.handled = none then some { s with handled := some (List.replicate entries none) } else none
  | .storeOther rows =>
    if h : Fresh s.table rows then
      if ∀ r ∈ rows, r.runId ≠ run then some { s with table := insertBatch s.table rows h } else none
    else none
  | .publish ok =>
    match s.handled with
    | some batch =>
      some { s with handled := none, socket := if ok then s.socket.map (· ++ [batch]) else s.socket }
    | none => none
  | .mount =>
    if s.view.request = .unmounted then some { s with view := { s.view with request := .sent none } } else none
  | .connect => if s.socket = none ∧ s.view.request ≠ .unmounted then some { s with socket := some [] } else none
  | .close => if s.socket = none then none else some { s with socket := none }
  | .deliver =>
    match s.socket with
    | some (batch :: batches) =>
      some { s with socket := some batches, view := { s.view with lines := s.view.lines ++ batch } }
    | _ => none
  | .query =>
    match s.view.request with
    | .sent c =>
      match query s.table run noFilters c limit with
      | .ok rows => some { s with view := { s.view with request := .read c (rows.map Row.id) } }
      | .error _ => none
    | _ => none
  | .more =>
    match s.view.request with
    | .read c page => some { s with view := { s.view with request := .answered c page (nextCursor run s.table page) } }
    | _ => none
  | .answer =>
    match s.view.request with
    | .answered c page next => some { s with view := s.view.show c page next }
    | _ => none
  | .fail =>
    match s.view.request with
    | .sent _ | .read _ _ | .answered _ _ _ => some { s with view := { s.view with request := .idle } }
    | _ => none
  | .loadNewer =>
    match s.view.request, s.view.nextCursor with
    | .idle, some c => if c = 0 then none else some { s with view := { s.view with request := .sent (some c) } }
    | _, _ => none

/-- The ids of the rows of the run, in the order of the log. -/
def log (table : Table Run Time) : List ℤ := (ordered table run noFilters none).map Row.id

end Steps

namespace State

/-- What is still to come on the socket. -/
def owed (s : State Run Time) : Batch := (s.socket.getD []).flatten ++ s.handled.getD []

/-- The batch that comes next. -/
def arriving (s : State Run Time) : Batch := ((s.socket.getD []).head?).getD []

/-- The first request has been answered, or has failed. -/
def Loaded (s : State Run Time) : Prop := s.view.request = .idle ∨ s.view.nextCursor ≠ none

instance (s : State Run Time) : Decidable s.Loaded := inferInstanceAs (Decidable (_ ∨ _))

/-- There is nothing left to load and nothing on its way. -/
def Settled (s : State Run Time) : Prop := s.view.request = .idle ∧ s.view.nextCursor = none ∧ s.owed = []

instance (s : State Run Time) : Decidable s.Settled := inferInstanceAs (Decidable (_ ∧ _ ∧ _))

end State

section Timely
variable (run : Run)

/-- Each line stored is shown or on its way, once there is nothing left to load. -/
def NoneLost (s : State Run Time) : Prop :=
  s.Loaded → s.view.nextCursor = none → ∀ i ∈ log run s.table, some i ∈ s.view.lines ∨ some i ∈ s.owed

instance (s : State Run Time) : Decidable (NoneLost run s) := inferInstanceAs (Decidable (_ → _ → _))

/-- No line is lost between the last page and the batches that follow it; after the first page a batch
arrives only when there is nothing left to load, and brings stored lines that are not shown yet; and if
the first page cannot be loaded, only stored lines have arrived before. -/
def Timely (s : State Run Time) (a : Act Run Time) (t : State Run Time) : Prop :=
  NoneLost run t ∧
    match a with
    | .deliver => s.Loaded → ∀ x ∈ s.arriving, s.view.nextCursor = none ∧ x ≠ none ∧ x ∉ s.view.lines
    | .fail => ∀ x ∈ t.view.lines, x ≠ none
    | _ => True

instance (s : State Run Time) (a : Act Run Time) (t : State Run Time) : Decidable (Timely run s a t) := by
  unfold Timely
  split <;> infer_instance

end Timely

/-! ### The log -/

section Log
variable {run : Run} {table : Table Run Time}

theorem log_strict : (log run table).Pairwise (· < ·) :=
  List.pairwise_map.mpr (ordered_strict run noFilters none)

theorem mem_log {i : ℤ} : i ∈ log run table ↔ ∃ r ∈ table.rows, r.runId = run ∧ r.id = i := by
  have hkeeps : ∀ r : Row Run Time, noFilters.keeps r = true := fun _ => rfl
  simp [log, (ordered_none_perm run noFilters).mem_iff, hkeeps, and_assoc]

theorem log_insertBatch {rows : List (Row Run Time)} (h : Fresh table rows) (hrun : ∀ r ∈ rows, r.runId = run) :
    log run (insertBatch table rows h) = log run table ++ rows.map Row.id := by
  refine List.Pairwise.eq_of_mem_iff log_strict (List.pairwise_append.mpr ⟨log_strict, ?_, ?_⟩) fun i => ?_
  · exact List.pairwise_map.mpr h.1
  · intro i hi j hj
    obtain ⟨r', hr', -, rfl⟩ := mem_log.mp hi
    obtain ⟨r, hr, rfl⟩ := List.mem_map.mp hj
    exact (h.2 r hr).2 r' hr'
  · simp only [mem_log, insertBatch, List.mem_append, List.mem_map]
    constructor
    · rintro ⟨r, hr | hr, hid⟩
      · exact .inl ⟨r, hr, hid⟩
      · exact .inr ⟨r, hr, hid.2⟩
    · rintro (⟨r, hr, hid⟩ | ⟨r, hr, rfl⟩)
      · exact ⟨r, .inl hr, hid⟩
      · exact ⟨r, .inr hr, hrun r hr, rfl⟩

theorem log_insertOther {rows : List (Row Run Time)} (h : Fresh table rows) (hrun : ∀ r ∈ rows, r.runId ≠ run) :
    log run (insertBatch table rows h) = log run table := by
  refine List.Pairwise.eq_of_mem_iff log_strict log_strict fun i => ?_
  simp only [mem_log, insertBatch, List.mem_append]
  constructor
  · rintro ⟨r, hr | hr, hid⟩
    · exact ⟨r, hr, hid⟩
    · exact absurd hid.1 (hrun r hr)
  · rintro ⟨r, hr, hid⟩
    exact ⟨r, .inl hr, hid⟩

theorem query_ids {c : Option ℤ} {rows : List (Row Run Time)} (h : query table run noFilters c limit = .ok rows) :
    rows.map Row.id = (above id c (log run table)).take limit := by
  unfold query at h
  split at h
  · cases h
  split at h
  · cases h
  split at h
  · cases h
  cases h
  rw [List.map_take, ordered_eq_above, above, above, log, List.filter_map]
  rfl

theorem nextCursor_spec {page : List ℤ} {k : ℤ} (h : nextCursor run table page = some k) :
    page.getLast? = some k ∧ ∃ i ∈ log run table, k < i := by
  obtain ⟨-, h⟩ := Option.ite_none_right_eq_some.mp h
  obtain ⟨last, hlast, h⟩ := Option.bind_eq_some_iff.mp h
  obtain ⟨hmore, h⟩ := Option.ite_none_right_eq_some.mp h
  cases h
  obtain ⟨r, hr, hk⟩ := List.any_eq_true.mp hmore
  simp only [Bool.and_eq_true, decide_eq_true_eq] at hk
  exact ⟨hlast, r.id, mem_log.mpr ⟨r, hr, hk.1, rfl⟩, hk.2⟩

/-- The two queries of a page are those of the endpoint, when nothing is stored between them. -/
theorem endpoint_eq {sv : Services Run Time} {runId : String} (huuid : sv.uuid runId = some run) (c : Option ℤ) :
    endpoint sv table runId noFilters c limit = (query table run noFilters c limit).map fun rows =>
      (rows.map (Row.line sv), nextCursor run table (rows.map Row.id)) := by
  have hlimit : ((limit : ℕ) : ℤ) ≤ 500 := by decide
  rw [endpoint, if_pos hlimit, getRunLogs, huuid]
  cases hquery : query table run noFilters c limit with
  | error e => simp [Option.elim, bind, Except.bind, hquery, Except.map]
  | ok rows =>
    simp only [Option.elim, bind, Except.bind, hquery, Except.map, nextCursor, List.length_map, List.getLast?_map,
      Int.natCast_inj]
    by_cases hfull : rows.length = limit
    · rw [if_pos hfull, if_pos hfull]
      cases hlast : rows.getLast? with
      | none =>
        rw [List.getLast?_eq_none_iff.mp hlast] at hfull
        exact absurd hfull (by simp [limit])
      | some last => simp
    · rw [if_neg hfull, if_neg hfull]

end Log

/-! ### What a step does -/

/-- The log, the lines that are still to come, and the view, after a step. -/
inductive Change (run : Run) (s t : State Run Time) : Act Run Time → Prop
  | relayed {a : Act Run Time} (view : t.view = s.view) (log : log run t.table = log run s.table)
      (owed : t.owed.Sublist s.owed) : Change run s t a
  | stored {a : Act Run Time} (ids : List ℤ) (view : t.view = s.view)
      (log : log run t.table = log run s.table ++ ids) (owed : t.owed = s.owed ++ ids.map some) : Change run s t a
  | notStored {a : Act Run Time} (entries : ℕ) (view : t.view = s.view) (log : log run t.table = log run s.table)
      (owed : t.owed = s.owed ++ List.replicate entries none) : Change run s t a
  | delivered (view : t.view = { s.view with lines := s.view.lines ++ s.arriving })
      (log : log run t.table = log run s.table) (owed : s.owed = s.arriving ++ t.owed) : Change run s t .deliver
  | mounted {a : Act Run Time} (request : s.view.request = .unmounted)
      (view : t.view = { s.view with request := .sent none }) (log : log run t.table = log run s.table)
      (owed : t.owed = s.owed) : Change run s t a
  | asked {a : Act Run Time} (c : ℤ) (request : s.view.request = .idle) (cursor : s.view.nextCursor = some c)
      (view : t.view = { s.view with request := .sent (some c) }) (log : log run t.table = log run s.table)
      (owed : t.owed = s.owed) : Change run s t a
  | read {a : Act Run Time} (c : Option ℤ) (request : s.view.request = .sent c)
      (view : t.view = { s.view with request := .read c ((above id c (log run s.table)).take limit) })
      (log : log run t.table = log run s.table) (owed : t.owed = s.owed) : Change run s t a
  | named {a : Act Run Time} (c : Option ℤ) (page : List ℤ) (next : Option ℤ) (request : s.view.request = .read c page)
      (hnext : ∀ k ∈ next, page.getLast? = some k ∧ ∃ i ∈ log run s.table, k < i)
      (view : t.view = { s.view with request := .answered c page next }) (log : log run t.table = log run s.table)
      (owed : t.owed = s.owed) : Change run s t a
  | shown {a : Act Run Time} (c : Option ℤ) (page : List ℤ) (next : Option ℤ)
      (request : s.view.request = .answered c page next) (view : t.view = s.view.show c page next)
      (log : log run t.table = log run s.table) (owed : t.owed = s.owed) : Change run s t a
  | failed (request : s.view.request ≠ .unmounted) (view : t.view = { s.view with request := .idle })
      (log : log run t.table = log run s.table) (owed : t.owed = s.owed) : Change run s t .fail

section Steps
variable {run : Run} {s t : State Run Time} {a : Act Run Time}

omit [DecidableEq Run] in
theorem owed_publish {handled : Batch} (ok : Bool) (h : s.handled = some handled) :
    (State.owed { s with handled := none, socket := if ok then s.socket.map (· ++ [handled]) else s.socket }).Sublist
      s.owed := by
  cases ok with
  | false => simp [State.owed]
  | true => cases hsocket : s.socket <;> simp [State.owed, hsocket, h]

theorem step_change (h : step run s a = some t) : Change run s t a := by
  cases a with
  | store rows =>
    simp only [step] at h
    split at h
    next hfresh =>
      obtain ⟨hguard, h⟩ := Option.ite_none_right_eq_some.mp h
      cases h
      refine .stored (rows.map Row.id) rfl (log_insertBatch hfresh hguard.2) ?_
      simp [State.owed, hguard.1]
    next => cases h
  | storeFails entries =>
    obtain ⟨hguard, h⟩ := Option.ite_none_right_eq_some.mp h
    cases h
    refine .notStored entries rfl rfl ?_
    simp [State.owed, hguard]
  | storeOther rows =>
    simp only [step] at h
    split at h
    next hfresh =>
      obtain ⟨hguard, h⟩ := Option.ite_none_right_eq_some.mp h
      cases h
      exact .relayed rfl (log_insertOther hfresh hguard) (List.Sublist.refl _)
    next => cases h
  | publish ok =>
    simp only [step] at h
    split at h
    next batch hbatch =>
      cases h
      exact .relayed rfl rfl (owed_publish ok hbatch)
    next => cases h
  | mount =>
    obtain ⟨hguard, h⟩ := Option.ite_none_right_eq_some.mp h
    cases h
    exact .mounted hguard rfl rfl rfl
  | connect =>
    obtain ⟨hguard, h⟩ := Option.ite_none_right_eq_some.mp h
    cases h
    refine .relayed rfl rfl ?_
    simp [State.owed, hguard.1]
  | close =>
    simp only [step] at h
    split at h
    next => cases h
    next =>
      cases h
      exact .relayed rfl rfl (List.sublist_append_right _ _)
  | deliver =>
    simp only [step] at h
    split at h
    next batch batches hsocket =>
      cases h
      refine .delivered ?_ rfl ?_
      · simp [State.arriving, hsocket]
      · simp [State.owed, State.arriving, hsocket]
    next => cases h
  | query =>
    simp only [step] at h
    split at h
    next c hsent =>
      split at h
      next rows hrows =>
        cases h
        refine .read c hsent ?_ rfl rfl
        rw [query_ids hrows]
      next => cases h
    next => cases h
  | more =>
    simp only [step] at h
    split at h
    next c page hread =>
      cases h
      exact .named c page _ hread (fun k hk => nextCursor_spec hk) rfl rfl rfl
    next => cases h
  | answer =>
    simp only [step] at h
    split at h
    next c page next hanswered =>
      cases h
      exact .shown c page next hanswered rfl rfl rfl
    next => cases h
  | fail =>
    simp only [step] at h
    split at h
    next hrequest =>
      cases h
      exact .failed (by simp [hrequest]) rfl rfl rfl
    next hrequest =>
      cases h
      exact .failed (by simp [hrequest]) rfl rfl rfl
    next hrequest =>
      cases h
      exact .failed (by simp [hrequest]) rfl rfl rfl
    next => cases h
  | loadNewer =>
    simp only [step] at h
    split at h
    next c hidle hcursor =>
      split at h
      next => cases h
      next =>
        cases h
        exact .asked c hidle hcursor rfl rfl rfl
    next => cases h

/-- `deliver` and `fail` do one thing only. -/
theorem step_deliver (h : step run s .deliver = some t) :
    t.view = { s.view with lines := s.view.lines ++ s.arriving } ∧ t.table = s.table := by
  simp only [step] at h
  split at h
  next batch batches hsocket =>
    cases h
    simp [State.arriving, hsocket]
  next => cases h

theorem step_fail (h : step run s .fail = some t) : t.view.request = .idle := by
  simp only [step] at h
  split at h <;> cases h <;> rfl

end Steps

/-! ### What holds in every run -/

/-- A first part of what is above the cursor, and not nothing if something was there. -/
def Page (log : List ℤ) (c : Option ℤ) (page : List ℤ) : Prop := page <+: above id c log ∧ (c ≠ none → page ≠ [])

/-- What a request knows of the log, and the viewer's cursor while it is made. -/
def Request.Fits (log : List ℤ) (cursor : Option ℤ) : Request → Prop
  | .unmounted => cursor = none
  | .idle => True
  | .sent c => cursor = c
  | .read c page => cursor = c ∧ Page log c page
  | .answered c page next =>
    cursor = c ∧ Page log c page ∧ ∀ k ∈ next, page.getLast? = some k ∧ ∃ i ∈ log, k < i

structure Inv (run : Run) (s : State Run Time) : Prop where
  known : ∀ i, some i ∈ s.view.lines → i ∈ log run s.table
  owed : (s.owed.filterMap id).Sublist (log run s.table)
  /-- Until the first answer everything has come from the socket. -/
  early : ¬ s.Loaded → ((s.view.lines ++ s.owed).filterMap id).Sublist (log run s.table)
  cursor : ∀ c, s.view.nextCursor = some c → ∃ i ∈ log run s.table, c < i
  request : s.view.request.Fits (log run s.table) s.view.nextCursor

theorem Page.append {log : List ℤ} {c : Option ℤ} {page : List ℤ} (h : Page log c page) (ids : List ℤ) :
    Page (log ++ ids) c page := by
  refine ⟨?_, h.2⟩
  rw [above, List.filter_append]
  exact h.1.trans (List.prefix_append _ _)

theorem Request.Fits.append {log : List ℤ} {cursor : Option ℤ} {r : Request} (h : r.Fits log cursor) (ids : List ℤ) :
    r.Fits (log ++ ids) cursor := by
  cases r with
  | unmounted | idle | sent c => exact h
  | read c page => exact ⟨h.1, h.2.append ids⟩
  | answered c page next =>
    refine ⟨h.1, h.2.1.append ids, fun k hk => ?_⟩
    obtain ⟨hlast, i, hi, hlt⟩ := h.2.2 k hk
    exact ⟨hlast, i, List.mem_append_left ids hi, hlt⟩

theorem page_take {log : List ℤ} {c : Option ℤ} (h : ∀ k, c = some k → ∃ i ∈ log, k < i) :
    Page log c ((above id c log).take limit) := by
  refine ⟨List.take_prefix _ _, fun hc => ?_⟩
  obtain ⟨k, rfl⟩ := Option.ne_none_iff_exists'.mp hc
  obtain ⟨i, hi, hlt⟩ := h k rfl
  have hmem : i ∈ above id (some k) log := List.mem_filter.mpr ⟨hi, by simpa using hlt⟩
  cases habove : above id (some k) log with
  | nil =>
    rw [habove] at hmem
    cases hmem
  | cons j js => simp [limit]

section Invariant
variable {run : Run} {s t : State Run Time} {a : Act Run Time}

theorem inv_opened (table : Table Run Time) : Inv run (opened table) where
  known := nofun
  owed := List.nil_sublist _
  early _ := List.nil_sublist _
  cursor := nofun
  request := rfl

theorem Inv.owed_mem (h : Inv run s) {i : ℤ} (hi : some i ∈ s.owed) : i ∈ log run s.table :=
  h.owed.subset (List.mem_filterMap.mpr ⟨some i, hi, rfl⟩)

theorem Inv.arriving_mem (h : Inv run s) {rest : Batch} (howed : s.owed = s.arriving ++ rest) {i : ℤ}
    (hi : some i ∈ s.arriving) : i ∈ log run s.table :=
  h.owed_mem (howed ▸ List.mem_append_left rest hi)

/-- Another view of a state in which a page has been asked for. -/
theorem Inv.with_request (h : Inv run s) (hloaded : t.Loaded ∨ ¬ s.Loaded) {r : Request}
    (hview : t.view = { s.view with request := r }) (hlog : log run t.table = log run s.table) (howed : t.owed = s.owed)
    (hr : r.Fits (log run s.table) s.view.nextCursor) : Inv run t where
  known := by
    rw [hview, hlog]
    exact h.known
  owed := by
    rw [hlog, howed]
    exact h.owed
  early hnot := by
    rw [hview, hlog, howed]
    exact h.early (hloaded.resolve_left hnot)
  cursor := by
    rw [hview, hlog]
    exact h.cursor
  request := by
    rw [hview, hlog]
    exact hr

theorem inv_step (h : Inv run s) (hstep : step run s a = some t) : Inv run t := by
  cases step_change hstep with
  | relayed hview hlog howed =>
    have hsub := howed.filterMap id
    refine ⟨hview ▸ hlog ▸ h.known, hlog ▸ hsub.trans h.owed, fun hnot => ?_, hview ▸ hlog ▸ h.cursor,
      hview ▸ hlog ▸ h.request⟩
    have hearly := h.early (by rwa [State.Loaded, hview] at hnot)
    rw [hview, hlog]
    exact ((List.Sublist.refl _).append howed).filterMap id |>.trans hearly
  | stored ids hview hlog howed =>
    have hids : (ids.map some).filterMap id = ids := by simp [List.filterMap_map]
    refine ⟨fun i hi => ?_, ?_, fun hnot => ?_, fun c hc => ?_, ?_⟩
    · rw [hview] at hi
      rw [hlog]
      exact List.mem_append_left ids (h.known i hi)
    · rw [hlog, howed, List.filterMap_append, hids]
      exact h.owed.append (List.Sublist.refl ids)
    · have hearly := h.early (by rwa [State.Loaded, hview] at hnot)
      rw [hview, hlog, howed, ← List.append_assoc, List.filterMap_append, hids]
      exact hearly.append (List.Sublist.refl ids)
    · rw [hview] at hc
      obtain ⟨i, hi, hlt⟩ := h.cursor c hc
      rw [hlog]
      exact ⟨i, List.mem_append_left ids hi, hlt⟩
    · rw [hview, hlog]
      exact h.request.append ids
  | notStored entries hview hlog howed =>
    have hnone : (List.replicate entries (none : Option ℤ)).filterMap id = [] := by simp
    refine ⟨hview ▸ hlog ▸ h.known, ?_, fun hnot => ?_, hview ▸ hlog ▸ h.cursor, hview ▸ hlog ▸ h.request⟩
    · rw [hlog, howed, List.filterMap_append, hnone, List.append_nil]
      exact h.owed
    · have hearly := h.early (by rwa [State.Loaded, hview] at hnot)
      rw [hview, hlog, howed, ← List.append_assoc, List.filterMap_append, hnone, List.append_nil]
      exact hearly
  | delivered hview hlog howed =>
    refine ⟨fun i hi => ?_, ?_, fun hnot => ?_, ?_, ?_⟩
    · rw [hview] at hi
      rw [hlog]
      rcases List.mem_append.mp hi with hi | hi
      · exact h.known i hi
      · exact h.arriving_mem howed hi
    · rw [hlog]
      refine List.Sublist.trans ?_ h.owed
      rw [howed]
      exact (List.sublist_append_right _ _).filterMap id
    · have hearly := h.early (by rwa [State.Loaded, hview] at hnot)
      rw [howed] at hearly
      rw [hview, hlog, List.append_assoc]
      exact hearly
    · rw [hview, hlog]
      exact h.cursor
    · rw [hview, hlog]
      exact h.request
  | mounted hrequest hview hlog howed =>
    have hfits := h.request
    rw [hrequest] at hfits
    refine h.with_request (.inr ?_) hview hlog howed hfits
    simp [State.Loaded, hrequest, show s.view.nextCursor = none from hfits]
  | asked c hrequest hcursor hview hlog howed =>
    refine h.with_request (.inl ?_) hview hlog howed hcursor
    simp [State.Loaded, hview, hcursor]
  | read c hrequest hview hlog howed =>
    have hfits := h.request
    rw [hrequest] at hfits
    refine h.with_request ?_ hview hlog howed ⟨hfits, page_take fun k hk => h.cursor k (hfits.trans hk)⟩
    simp [State.Loaded, hview, hrequest, em']
  | named c page next hrequest hnext hview hlog howed =>
    have hfits := h.request
    rw [hrequest] at hfits
    refine h.with_request ?_ hview hlog howed ⟨hfits.1, hfits.2, hnext⟩
    simp [State.Loaded, hview, hrequest, em']
  | shown c page next hrequest hview hlog howed =>
    have hfits := h.request
    rw [hrequest] at hfits
    obtain ⟨-, hpage, hnext⟩ := hfits
    refine ⟨fun i hi => ?_, ?_, fun hnot => ?_, fun k hk => ?_, ?_⟩
    · rw [hview, View.show] at hi
      rw [hlog]
      rcases List.mem_append.mp hi with hi | hi
      · split at hi
        · cases hi
        · exact h.known i hi
      · exact List.mem_of_mem_filter (hpage.1.subset (by simpa using hi))
    · rw [hlog, howed]
      exact h.owed
    · exact absurd (.inl (by rw [hview]; rfl)) hnot
    · rw [hview] at hk
      rw [hlog]
      exact (hnext k hk).2
    · rw [hview]
      trivial
  | failed hrequest hview hlog howed =>
    refine h.with_request (.inl (.inl ?_)) hview hlog howed trivial
    rw [hview]

/-! ### On and off the course -/

/-- The viewer shows a first part of the log, up to its cursor if it has one, and nothing is lost. -/
def OnCourse (run : Run) (s : State Run Time) : Prop :=
  s.Loaded → ∃ shown : List ℤ, s.view.lines = shown.map some ∧ shown <+: log run s.table ∧
    (∀ c, s.view.nextCursor = some c → shown.getLast? = some c) ∧ NoneLost run s

/-- The viewer shows something else, or a line that it will load once more, or a line is lost. -/
def OffCourse (run : Run) (s : State Run Time) : Prop :=
  s.Loaded ∧ (¬ s.view.lines <+: (log run s.table).map some ∨
    (∃ c i, s.view.nextCursor = some c ∧ c < i ∧ some i ∈ s.view.lines) ∨ ¬ NoneLost run s)

theorem log_some_nodup (run : Run) (table : Table Run Time) : ((log run table).map some).Nodup :=
  List.Nodup.map (Option.some_injective ℤ) (log_strict.imp fun h => h.ne)

/-- A first part of the log has only stored lines. -/
theorem shown_of_prefix {lines : Batch} {ids : List ℤ} (h : lines <+: ids.map some) :
    ∃ shown : List ℤ, lines = shown.map some ∧ shown <+: ids := by
  refine ⟨ids.take lines.length, ?_, List.take_prefix _ _⟩
  rw [List.map_take]
  exact List.prefix_iff_eq_take.mp h

theorem not_prefix_of_none {lines : Batch} {ids : List ℤ} (h : none ∈ lines) : ¬ lines <+: ids.map some := by
  intro hfront
  simpa using hfront.subset h

/-- A batch that may arrive brings stored lines. -/
theorem batch_stored {batch : Batch} (h : ∀ x ∈ batch, x ≠ none) : (batch.filterMap id).map some = batch := by
  induction batch with
  | nil => rfl
  | cons x batch ih =>
    obtain ⟨hx, hbatch⟩ := List.forall_mem_cons.mp h
    obtain ⟨i, rfl⟩ := Option.ne_none_iff_exists'.mp hx
    have hcons : (some i :: batch).filterMap id = i :: batch.filterMap id := rfl
    rw [hcons, List.map_cons, ih hbatch]

/-- What was shown in the view before is shown after a step that leaves the lines alone. -/
theorem OnCourse.keep (hon : OnCourse run s) (hloaded : t.Loaded → s.Loaded) (hlines : t.view.lines = s.view.lines)
    (hcursor : t.view.nextCursor = s.view.nextCursor) (hlog : log run s.table <+: log run t.table)
    (hlost : NoneLost run t) : OnCourse run t := by
  intro ht
  obtain ⟨shown, hshown, hfront, hlast, -⟩ := hon (hloaded ht)
  refine ⟨shown, hlines.trans hshown, hfront.trans hlog, fun c hc => hlast c ?_, hlost⟩
  rw [← hcursor, hc]

theorem onCourse_delivered (hinv : Inv run s) (hon : OnCourse run s) (ht : Timely run s .deliver t)
    (hview : t.view = { s.view with lines := s.view.lines ++ s.arriving }) (hlog : log run t.table = log run s.table)
    (howed : s.owed = s.arriving ++ t.owed) : OnCourse run t := by
  intro hloaded
  have hs : s.Loaded := by rwa [State.Loaded, hview] at hloaded
  obtain ⟨shown, hshown, hfront, hlast, hnone⟩ := hon hs
  have harrives := ht.2 hs
  set new := s.arriving.filterMap id with hnew
  have hbatch : new.map some = s.arriving := batch_stored fun x hx => (harrives x hx).2.1
  have hnotShown : ∀ i ∈ new, i ∉ shown := by
    intro i hi hmem
    have hx : some i ∈ s.arriving := hbatch ▸ List.mem_map_of_mem hi
    exact (harrives _ hx).2.2 (hshown ▸ List.mem_map_of_mem hmem)
  have hempty : s.view.nextCursor ≠ none → new = [] := by
    intro hcursor
    rw [List.eq_nil_iff_forall_not_mem]
    intro i hi
    have hx : some i ∈ s.arriving := hbatch ▸ List.mem_map_of_mem hi
    exact hcursor (harrives _ hx).1
  refine ⟨shown ++ new, ?_, ?_, fun c hc => ?_, ht.1⟩
  · rw [hview, hshown, List.map_append, hbatch]
  · rw [hlog]
    by_cases hcursor : s.view.nextCursor = none
    · have hsplit : s.owed.filterMap id = new ++ t.owed.filterMap id := by rw [howed, List.filterMap_append]
      refine continues log_strict hfront (hsplit ▸ hinv.owed) (fun i hi => ?_) hnotShown
      refine (hnone hs hcursor i hi).imp (fun h => ?_) fun h => ?_
      · simpa [hshown] using h
      · rw [← hsplit]
        exact List.mem_filterMap.mpr ⟨some i, h, rfl⟩
    · rwa [hempty hcursor, List.append_nil]
  · have hc' : s.view.nextCursor = some c := by rwa [hview] at hc
    rw [hempty (by simp [hc']), List.append_nil]
    exact hlast c hc'

/-- A page goes on where the viewer is. -/
theorem onCourse_shown (hinv : Inv run s) (hon : OnCourse run s) (hlost : NoneLost run t) {c : Option ℤ} {page : List ℤ}
    {next : Option ℤ} (hrequest : s.view.request = .answered c page next) (hview : t.view = s.view.show c page next)
    (hlog : log run t.table = log run s.table) : OnCourse run t := by
  intro _
  have hfits := hinv.request
  rw [hrequest] at hfits
  obtain ⟨hcursor, hpage, hnext⟩ := hfits
  cases c with
  | none =>
    refine ⟨page, by rw [hview]; rfl, ?_, fun k hk => ?_, hlost⟩
    · have hall : above id none (log run s.table) = log run s.table := above_none _
      rw [hlog, ← hall]
      exact hpage.1
    · rw [hview] at hk
      exact (hnext k hk).1
  | some c =>
    have hs : s.Loaded := .inr (by simp [hcursor])
    obtain ⟨shown, hshown, hfront, hlast, -⟩ := hon hs
    have hsplit := above_last_shown log_strict hfront (hlast c hcursor)
    refine ⟨shown ++ page, ?_, ?_, fun k hk => ?_, hlost⟩
    · rw [hview, View.show, if_neg (by simp), hshown, List.map_append]
    · rw [hlog]
      conv_rhs => rw [← hsplit]
      exact (List.prefix_append_right_inj shown).mpr hpage.1
    · rw [hview] at hk
      rw [List.getLast?_append, (hnext k hk).1]
      rfl

/-- When the first page cannot be loaded, the lines from the socket are all there are. -/
theorem onCourse_failed (hinv : Inv run s) (hon : OnCourse run s) (ht : Timely run s .fail t)
    (hview : t.view = { s.view with request := .idle }) (hlog : log run t.table = log run s.table)
    (howed : t.owed = s.owed) : OnCourse run t := by
  by_cases hs : s.Loaded
  · refine hon.keep (fun _ => hs) ?_ ?_ (by rw [hlog]) ht.1 <;> rw [hview]
  · intro hloaded
    have hcursor : t.view.nextCursor = none := by
      rw [hview]
      by_contra hne
      exact hs (.inr hne)
    have hlines : t.view.lines = s.view.lines := by rw [hview]
    have hstored := batch_stored ht.2
    rw [hlines] at hstored
    have hearly := hinv.early hs
    rw [List.filterMap_append] at hearly
    have hall := eq_log log_strict hearly fun i hi => by
      rw [← hlog] at hi
      have hi := ht.1 hloaded hcursor i hi
      rw [hlines, howed] at hi
      rw [← List.filterMap_append]
      exact List.mem_filterMap.mpr ⟨some i, List.mem_append.mpr hi, rfl⟩
    refine ⟨s.view.lines.filterMap id, by rw [hlines, hstored], ?_, fun c hc => ?_, ht.1⟩
    · rw [hlog]
      conv_rhs => rw [← hall]
      exact List.prefix_append _ _
    · cases hcursor.symm.trans hc

theorem onCourse_step (hinv : Inv run s) (hon : OnCourse run s) (hstep : step run s a = some t)
    (ht : Timely run s a t) : OnCourse run t := by
  cases step_change hstep with
  | relayed hview hlog howed =>
    exact hon.keep (by rw [State.Loaded, hview]; exact id) (by rw [hview]) (by rw [hview]) (by rw [hlog]) ht.1
  | stored ids hview hlog howed =>
    refine hon.keep (by rw [State.Loaded, hview]; exact id) (by rw [hview]) (by rw [hview]) ?_ ht.1
    rw [hlog]
    exact List.prefix_append _ _
  | notStored entries hview hlog howed =>
    exact hon.keep (by rw [State.Loaded, hview]; exact id) (by rw [hview]) (by rw [hview]) (by rw [hlog]) ht.1
  | delivered hview hlog howed => exact onCourse_delivered hinv hon ht hview hlog howed
  | mounted hrequest hview hlog howed =>
    refine hon.keep (fun hloaded => ?_) (by rw [hview]) (by rw [hview]) (by rw [hlog]) ht.1
    simpa [State.Loaded, hview, hrequest] using hloaded
  | asked c hrequest hcursor hview hlog howed =>
    exact hon.keep (fun _ => .inl hrequest) (by rw [hview]) (by rw [hview]) (by rw [hlog]) ht.1
  | read c hrequest hview hlog howed =>
    refine hon.keep (fun hloaded => ?_) (by rw [hview]) (by rw [hview]) (by rw [hlog]) ht.1
    simpa [State.Loaded, hview, hrequest] using hloaded
  | named c page next hrequest hnext hview hlog howed =>
    refine hon.keep (fun hloaded => ?_) (by rw [hview]) (by rw [hview]) (by rw [hlog]) ht.1
    simpa [State.Loaded, hview, hrequest] using hloaded
  | shown c page next hrequest hview hlog howed => exact onCourse_shown hinv hon ht.1 hrequest hview hlog
  | failed hrequest hview hlog howed => exact onCourse_failed hinv hon ht hview hlog howed

theorem offCourse_of_lost (h : ¬ NoneLost run t) : OffCourse run t :=
  ⟨by_contra fun hnot => h fun hloaded => absurd hloaded hnot, .inr (.inr h)⟩

/-- A batch that arrives too early, or again, or without its rows. -/
theorem offCourse_delivered (hon : OnCourse run s) (hs : s.Loaded)
    (hview : t.view = { s.view with lines := s.view.lines ++ s.arriving }) (hlog : log run t.table = log run s.table)
    {x : Option ℤ} (hx : x ∈ s.arriving) (hnot : ¬ (s.view.nextCursor = none ∧ x ≠ none ∧ x ∉ s.view.lines)) :
    OffCourse run t := by
  obtain ⟨shown, hshown, hfront, hlast, -⟩ := hon hs
  have hlines : t.view.lines = s.view.lines ++ s.arriving := by rw [hview]
  refine ⟨by rwa [State.Loaded, hview], ?_⟩
  by_cases hright : t.view.lines <+: (log run t.table).map some
  · rw [hlines, hlog] at hright
    have hnone : x ≠ none := fun h => not_prefix_of_none (List.mem_append_right _ (h ▸ hx)) hright
    have hnew : x ∉ s.view.lines := fun h => not_prefix_of_mem (log_some_nodup run s.table) h hx hright
    obtain ⟨c, hcursor⟩ := Option.ne_none_iff_exists'.mp fun h => hnot ⟨h, hnone, hnew⟩
    obtain ⟨i, rfl⟩ := Option.ne_none_iff_exists'.mp hnone
    obtain ⟨all, hall, hallPrefix⟩ := shown_of_prefix hright
    refine .inr (.inl ⟨c, i, by rw [hview]; exact hcursor, ?_, by rw [hlines]; exact List.mem_append_right _ hx⟩)
    obtain ⟨before, hbefore⟩ := List.getLast?_eq_some_iff.mp (hlast c hcursor)
    have hsorted : (s.view.lines ++ s.arriving).Pairwise fun x y => ∀ i ∈ x, ∀ j ∈ y, i < j := by
      rw [hall, List.pairwise_map]
      exact (log_strict.sublist hallPrefix.sublist).imp fun h i hi j hj => by
        cases hi
        cases hj
        exact h
    refine (List.pairwise_append.mp hsorted).2.2 (some c) ?_ (some i) hx c rfl i rfl
    simp [hshown, hbefore]
  · exact .inl hright

theorem offCourse_of_not_timely (hon : OnCourse run s) (hstep : step run s a = some t) (ht : ¬ Timely run s a t) :
    OffCourse run t := by
  by_cases hlost : NoneLost run t
  · cases a with
    | deliver =>
      have hnot : ¬ (s.Loaded → ∀ x ∈ s.arriving, s.view.nextCursor = none ∧ x ≠ none ∧ x ∉ s.view.lines) :=
        fun h => ht ⟨hlost, h⟩
      push Not at hnot
      obtain ⟨hs, x, hx, hnot⟩ := hnot
      obtain ⟨hview, htable⟩ := step_deliver hstep
      exact offCourse_delivered hon hs hview (by rw [htable]) hx fun h => h.2.2 (hnot h.1 h.2.1)
    | fail =>
      have hnot : ¬ ∀ x ∈ t.view.lines, x ≠ none := fun h => ht ⟨hlost, h⟩
      push Not at hnot
      obtain ⟨x, hx, rfl⟩ := hnot
      exact ⟨.inl (step_fail hstep), .inl (not_prefix_of_none hx)⟩
    | store | storeFails | storeOther | publish | mount | connect | close | query | more | answer | loadNewer =>
      exact absurd ⟨hlost, trivial⟩ ht
  · exact offCourse_of_lost hlost

/-- The same lines remain wrong, and are loaded again if they would be. -/
theorem OffCourse.keep (hinv : Inv run s) (hoff : OffCourse run s) (hloaded : t.Loaded)
    (hlines : ∃ more, t.view.lines = s.view.lines ++ more) (hcursor : t.view.nextCursor = s.view.nextCursor)
    (hlog : ∃ ids, log run t.table = log run s.table ++ ids)
    (hlost : ¬ NoneLost run s → ¬ NoneLost run t) : OffCourse run t := by
  obtain ⟨more, hlines⟩ := hlines
  obtain ⟨ids, hlog⟩ := hlog
  refine ⟨hloaded, ?_⟩
  rcases hoff.2 with hwrong | ⟨c, i, hc, hi, hmem⟩ | hmiss
  · refine .inl fun hfront => hwrong ?_
    rw [hlines, hlog, List.map_append] at hfront
    refine prefix_of_prefix_append ((List.prefix_append _ _).trans hfront) fun x hx hshown => ?_
    obtain ⟨i, hi, rfl⟩ := List.mem_map.mp hx
    have hnodup : (log run s.table ++ ids).Nodup := by
      rw [← hlog]
      exact log_strict.imp fun h => h.ne
    exact (List.nodup_append.mp hnodup).2.2 i (hinv.known i hshown) i hi rfl
  · exact .inr (.inl ⟨c, i, hcursor.trans hc, hi, by rw [hlines]; exact List.mem_append_left more hmem⟩)
  · exact .inr (.inr (hlost hmiss))

/-- A line that is lost stays lost. -/
theorem lost_stays (h : ¬ NoneLost run s) (hloaded : t.Loaded)
    (hcursor : t.view.nextCursor = s.view.nextCursor) {ids : List ℤ} (hlog : log run t.table = log run s.table ++ ids)
    (hfrom : ∀ x, x ∈ t.view.lines ∨ x ∈ t.owed → x ∈ s.view.lines ∨ x ∈ s.owed ∨ x = none ∨ ∃ i ∈ ids, x = some i) :
    ¬ NoneLost run t := by
  unfold NoneLost at h
  push Not at h
  obtain ⟨-, hnone, i, hi, hlines, howed⟩ := h
  intro hall
  have hmem : i ∈ log run t.table := hlog ▸ List.mem_append_left ids hi
  rcases hfrom _ (hall hloaded (hcursor.trans hnone) i hmem) with hx | hx | hx | ⟨j, hj, hij⟩
  · exact hlines hx
  · exact howed hx
  · cases hx
  · cases hij
    have hnodup : (log run s.table ++ ids).Nodup := by
      rw [← hlog]
      exact log_strict.imp fun h => h.ne
    exact (List.nodup_append.mp hnodup).2.2 i hi i hj rfl

theorem lost_stays_same (h : ¬ NoneLost run s) (hloaded : t.Loaded) (hcursor : t.view.nextCursor = s.view.nextCursor)
    (hlog : log run t.table = log run s.table)
    (hfrom : ∀ x, x ∈ t.view.lines ∨ x ∈ t.owed → x ∈ s.view.lines ∨ x ∈ s.owed ∨ x = none) : ¬ NoneLost run t := by
  have hsame : log run t.table = log run s.table ++ [] := by rw [hlog, List.append_nil]
  exact lost_stays h hloaded hcursor hsame fun x hx => (hfrom x hx).imp id fun h => h.imp id .inl

/-- A page that is loaded after a line which it has again. -/
theorem offCourse_shown (hinv : Inv run s) (hoff : OffCourse run s) {c : Option ℤ} {page : List ℤ} {next : Option ℤ}
    (hrequest : s.view.request = .answered c page next) (hview : t.view = s.view.show c page next)
    (hlog : log run t.table = log run s.table) : OffCourse run t := by
  have hfits := hinv.request
  rw [hrequest] at hfits
  obtain ⟨hcursor, hpage, -⟩ := hfits
  have hloaded : t.Loaded := .inl (by rw [hview]; rfl)
  obtain ⟨hs, hoff⟩ := hoff
  have hc : s.view.nextCursor ≠ none := hs.resolve_left (by simp [hrequest])
  obtain ⟨k, hk⟩ := Option.ne_none_iff_exists'.mp hc
  cases hcursor.symm.trans hk
  have hlines : t.view.lines = s.view.lines ++ page.map some := by rw [hview, View.show, if_neg (by simp)]
  refine ⟨hloaded, .inl fun hfront => ?_⟩
  rw [hlines, hlog] at hfront
  have hbefore : s.view.lines <+: (log run s.table).map some := (List.prefix_append _ _).trans hfront
  rcases hoff with hwrong | ⟨k', i, hk', hi, hmem⟩ | hmiss
  · exact hwrong hbefore
  · cases hk'.symm.trans hk
    obtain ⟨shown, hshown, hshownPrefix⟩ := shown_of_prefix hbefore
    cases hfirst : page with
    | nil => exact hpage.2 (by simp) hfirst
    | cons j page' =>
      obtain ⟨rest, hrest⟩ := hpage.1
      rw [hfirst, List.cons_append] at hrest
      have hsorted : (above id (some k) (log run s.table)).Pairwise (· < ·) := log_strict.filter _
      have hiabove : i ∈ above id (some k) (log run s.table) :=
        List.mem_filter.mpr ⟨hinv.known i hmem, by simpa using hi⟩
      have hj : j ∈ log run s.table := List.mem_of_mem_filter (hrest ▸ List.mem_cons_self)
      have hle : j ≤ i := by
        rw [← hrest] at hsorted hiabove
        rcases List.mem_cons.mp hiabove with rfl | hlater
        · exact le_rfl
        · exact (List.rel_of_pairwise_cons hsorted hlater).le
      have hjshown : j ∈ shown := mem_of_le log_strict hshownPrefix (by simpa [hshown] using hmem) hj hle
      refine not_prefix_of_mem (log_some_nodup run s.table) (i := some j) ?_ ?_ hfront
      · rw [hshown]
        exact List.mem_map_of_mem hjshown
      · rw [hfirst]
        exact List.mem_map_of_mem List.mem_cons_self
  · exact hmiss fun _ hnone => absurd hnone hc

theorem offCourse_step (hinv : Inv run s) (hoff : OffCourse run s) (hstep : step run s a = some t) :
    OffCourse run t := by
  have hsame : log run t.table = log run s.table → ∃ ids, log run t.table = log run s.table ++ ids :=
    fun h => ⟨[], by rw [h, List.append_nil]⟩
  cases step_change hstep with
  | relayed hview hlog howed =>
    have hloaded : t.Loaded := by rw [State.Loaded, hview]; exact hoff.1
    refine hoff.keep hinv hloaded ⟨[], by rw [hview, List.append_nil]⟩ (by rw [hview]) (hsame hlog) fun hmiss => ?_
    refine lost_stays_same hmiss hloaded (by rw [hview]) hlog fun x hx => ?_
    rw [hview] at hx
    exact hx.imp id fun h => .inl (howed.subset h)
  | stored ids hview hlog howed =>
    have hloaded : t.Loaded := by rw [State.Loaded, hview]; exact hoff.1
    refine hoff.keep hinv hloaded ⟨[], by rw [hview, List.append_nil]⟩ (by rw [hview]) ⟨ids, hlog⟩ fun hmiss => ?_
    refine lost_stays hmiss hloaded (by rw [hview]) hlog fun x hx => ?_
    rw [hview, howed, List.mem_append, List.mem_map] at hx
    exact hx.imp id fun h => h.imp id fun ⟨i, hi, heq⟩ => .inr ⟨i, hi, heq.symm⟩
  | notStored entries hview hlog howed =>
    have hloaded : t.Loaded := by rw [State.Loaded, hview]; exact hoff.1
    refine hoff.keep hinv hloaded ⟨[], by rw [hview, List.append_nil]⟩ (by rw [hview]) (hsame hlog) fun hmiss => ?_
    refine lost_stays_same hmiss hloaded (by rw [hview]) hlog fun x hx => ?_
    rw [hview, howed, List.mem_append] at hx
    exact hx.imp id fun h => h.imp id List.eq_of_mem_replicate
  | delivered hview hlog howed =>
    have hloaded : t.Loaded := by rw [State.Loaded, hview]; exact hoff.1
    refine hoff.keep hinv hloaded ⟨s.arriving, by rw [hview]⟩ (by rw [hview]) (hsame hlog) fun hmiss => ?_
    refine lost_stays_same hmiss hloaded (by rw [hview]) hlog fun x hx => ?_
    rw [hview, List.mem_append] at hx
    rw [howed, List.mem_append]
    tauto
  | mounted hrequest hview hlog howed =>
    have hfits := hinv.request
    rw [hrequest] at hfits
    rcases hoff.1 with h | h
    · rw [hrequest] at h
      cases h
    · exact absurd hfits h
  | asked c hrequest hcursor hview hlog howed =>
    refine hoff.keep hinv (.inr (by simp [hview, hcursor])) ⟨[], by rw [hview, List.append_nil]⟩ (by rw [hview])
      (hsame hlog) fun hmiss => absurd (fun _ hnone => ?_) hmiss
    cases hcursor.symm.trans hnone
  | read c hrequest hview hlog howed =>
    have hcursor : s.view.nextCursor ≠ none := hoff.1.resolve_left (by simp [hrequest])
    refine hoff.keep hinv (.inr (by rw [hview]; exact hcursor)) ⟨[], by rw [hview, List.append_nil]⟩ (by rw [hview])
      (hsame hlog) fun hmiss => absurd (fun _ hnone => absurd hnone hcursor) hmiss
  | named c page next hrequest hnext hview hlog howed =>
    have hcursor : s.view.nextCursor ≠ none := hoff.1.resolve_left (by simp [hrequest])
    refine hoff.keep hinv (.inr (by rw [hview]; exact hcursor)) ⟨[], by rw [hview, List.append_nil]⟩ (by rw [hview])
      (hsame hlog) fun hmiss => absurd (fun _ hnone => absurd hnone hcursor) hmiss
  | shown c page next hrequest hview hlog howed => exact offCourse_shown hinv hoff hrequest hview hlog
  | failed hrequest hview hlog howed =>
    have hloaded : t.Loaded := .inl (by rw [hview])
    refine hoff.keep hinv hloaded ⟨[], by rw [hview, List.append_nil]⟩ (by rw [hview]) (hsame hlog) fun hmiss => ?_
    refine lost_stays_same hmiss hloaded (by rw [hview]) hlog fun x hx => ?_
    rw [hview, howed] at hx
    exact hx.imp id .inl

theorem onCourse_settled (hon : OnCourse run s) (hsettled : s.Settled) :
    s.view.lines = (log run s.table).map some := by
  have hloaded : s.Loaded := .inl hsettled.1
  obtain ⟨shown, hshown, hfront, -, hnone⟩ := hon hloaded
  have hall : ∀ i ∈ log run s.table, i ∈ shown := by
    intro i hi
    have hmem := hnone hloaded hsettled.2.1 i hi
    rw [hsettled.2.2, hshown] at hmem
    simpa using hmem
  rw [hshown, shown_eq_log log_strict hfront hall]

theorem offCourse_settled (hoff : OffCourse run s) (hsettled : s.Settled) :
    s.view.lines ≠ (log run s.table).map some := by
  intro hlines
  rcases hoff.2 with hwrong | ⟨c, i, hc, -⟩ | hmiss
  · exact hwrong (hlines ▸ List.prefix_refl _)
  · cases hsettled.2.1.symm.trans hc
  · refine hmiss fun _ _ i hi => .inl ?_
    rw [hlines]
    exact List.mem_map_of_mem hi

/-- When everything has been loaded and has arrived, the viewer shows the log, each line once and in
order, exactly when every step of the run was timely. -/
theorem viewer_shows_log_iff {table : Table Run Time} {as : List (Act Run Time)}
    (h : exec (step run) (opened table) as = some s) (hsettled : s.Settled) :
    s.view.lines = (log run s.table).map some ↔ Always (step run) (Timely run) (opened table) as := by
  have hstart : Inv run (opened table) ∧ OnCourse run (opened table) :=
    ⟨inv_opened table, fun hloaded => by simp [State.Loaded, opened] at hloaded⟩
  have hruns := exec_kept_or_left (I := fun u => Inv run u ∧ OnCourse run u) (J := fun u => Inv run u ∧ OffCourse run u)
    (fun u a v hu hv ht => ⟨inv_step hu.1 hv, onCourse_step hu.1 hu.2 hv ht⟩)
    (fun u a v hu hv ht => ⟨inv_step hu.1 hv, offCourse_of_not_timely hu.2 hv ht⟩)
    (fun u a v hu hv => ⟨inv_step hu.1 hv, offCourse_step hu.1 hu.2 hv⟩) hstart h
  rcases hruns with ⟨halways, -, hon⟩ | ⟨hnot, -, hoff⟩
  · exact iff_of_true (onCourse_settled hon hsettled) halways
  · exact iff_of_false (offCourse_settled hoff hsettled) hnot

end Invariant

def noRows : Table ℕ ℕ := ⟨[], by decide, by decide⟩

/-- A batch arrives before the first page, which replaces it, and another one after it. -/
def earlyBatch : List (Act ℕ ℕ) :=
  [.store [⟨1, 0, "anvil", "info", "block 1", 11⟩, ⟨2, 0, "advancer", "info", "epoch 0", 12⟩], .mount, .connect,
    .publish true, .deliver, .query, .more, .answer, .store [⟨3, 0, "anvil", "info", "block 2", 13⟩], .publish true,
    .deliver]

theorem viewer_shows_log_earlyBatch :
    ∃ s, exec (step 0) (opened noRows) earlyBatch = some s ∧ s.view.lines = (log 0 s.table).map some := by
  have hrun : ((exec (step 0) (opened noRows) earlyBatch).isSome) = true := by decide +kernel
  obtain ⟨s, hs⟩ := Option.isSome_iff_exists.mp hrun
  have hsettled : ((exec (step 0) (opened noRows) earlyBatch).map fun s => decide s.Settled) = some true := by
    decide +kernel
  rw [hs, Option.map_some, Option.some_inj, decide_eq_true_eq] at hsettled
  exact ⟨s, hs, (viewer_shows_log_iff hs hsettled).mpr (by decide +kernel)⟩

end ReleaseValidation.Dashboard.LogViewer
