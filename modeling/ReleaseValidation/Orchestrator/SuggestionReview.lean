import Mathlib.Data.List.Sort
import ReleaseValidation.AiAgent.Suggestions
import ReleaseValidation.Foundations.Runs

/-! # The review of suggested tests

The two endpoints name columns that the table of suggestions does not have: the listing reads
them off the rows it has selected, the review in the condition of its update.
-/
namespace ReleaseValidation.Orchestrator.SuggestionReview
open AiAgent.Suggestions Columns JsonTexts Programs Runs Store

/-- How the interpreter writes a time. -/
structure Python where
  isoformat : ℕ → String

section Endpoints
variable (py : Python)

/-- `r.name` on a row of a result. -/
def field (r : Row Cell) (name : String) : Except Err (Option Cell) :=
  match r.get name with
  | some cell => .ok cell
  | none => .error (.exception ("Could not locate column in row for column '" ++ name ++ "'"))

/-- `str(cell)`. -/
def str : Option Cell → String
  | none => "None"
  | some (.uuid u) => u
  | some (.text s) => s
  | some (.timestamp t) => py.isoformat t

/-- `cell.isoformat()`. -/
def isoformat : Option Cell → Except Err String
  | some (.timestamp t) => .ok (py.isoformat t)
  | _ => .error (.exception "object has no attribute 'isoformat'")

structure Entry where
  actionId : String
  sessionId : String
  actionType : Option Cell
  description : Option Cell
  rationale : Option Cell
  status : Option Cell
  testDefinitionYaml : Option Cell
  createdAt : String
  deriving DecidableEq, Repr

/-- `cell or ""`. -/
def orEmpty : Option Cell → Option Cell
  | none => some (.text "")
  | some c => some c

def entry (r : Row Cell) : Except Err Entry := do
  let actionId ← field r "action_id"
  let sessionId ← field r "session_id"
  let actionType ← field r "action_type"
  let description ← field r "description"
  let rationale ← field r "rationale"
  let status ← field r "status"
  let testDefinitionYaml ← field r "test_definition_yaml"
  let createdAt ← isoformat py (← field r "created_at")
  return ⟨str py actionId, str py sessionId, actionType, description, orEmpty rationale, status, testDefinitionYaml, createdAt⟩

def createdAt (r : Row Cell) : ℕ :=
  match r.get "created_at" with
  | some (some (.timestamp t)) => t
  | _ => 0

/-- `SELECT * FROM ai.suggested_test_actions … ORDER BY created_at DESC`. -/
def selected (s : State) (sessionId : Option Uuid) : List (Row Cell) :=
  (s.actions.filter fun r => sessionId.all fun u => r.holds "session_id" (.uuid u)).insertionSort
    fun a b => createdAt b ≤ createdAt a

def listSuggestions (s : State) (sessionId : Option Uuid) : Except Err (List Entry) :=
  (selected s sessionId).mapM (entry py)

structure Reviewed where
  actionId : String
  status : Option Cell
  description : Option Cell
  deriving DecidableEq, Repr

def http (status : ℕ) (detail : String) : Err := .exception (toString status ++ ": " ++ detail)

/-- The response and the rows afterwards; the update is committed before its row is read. -/
def reviewSuggestion (s : State) (actionId : Uuid) (status : String) : Except Err Reviewed × State :=
  if status ≠ "approved" ∧ status ≠ "rejected" then (.error (http 422 "status must be approved or rejected"), s)
  else
    match suggestedTestActions.update s.actions "status" (some (.text status)) "action_id" (.uuid actionId) with
    | .error e => (.error (refused e), s)
    | .ok (_, []) => (.error (http 404 "Action not found"), s)
    | .ok (actions, row :: _) =>
      (do
        let actionId ← field row "action_id"
        let status ← field row "status"
        let description ← field row "description"
        return ⟨str py actionId, status, description⟩, { s with actions := actions })

/-- A suggestion as it is stored: its id, its definition and its status. -/
def stored (r : Row Cell) : String × Option Cell × Option Cell :=
  (str py (r.get "id").join, (r.get "definition_raw").join, (r.get "status").join)

/-- Every stored suggestion has its one entry, and a review with an entry's id changes the status of
that suggestion alone. -/
def Reviewable (s : State) : Prop :=
  ∃ entries, listSuggestions py s none = .ok entries ∧
    (entries.map fun e => (e.actionId, e.testDefinitionYaml, e.status)).Perm (s.actions.map (stored py)) ∧
    ∀ e ∈ entries, ∀ status ∈ ["approved", "rejected"],
      (reviewSuggestion py s e.actionId status).1.isOk = true ∧
      (reviewSuggestion py s e.actionId status).2.actions = s.actions.map fun r =>
        if (stored py r).1 = e.actionId then r.set "status" (some (.text status)) else r

end Endpoints

inductive Act
  | analyse (msg : Json) (response : Except Err String) (fresh : ℕ → Fresh)
  | review (actionId : Uuid) (status : String)

section System
variable (sv : Services) (py : Python)

/-- A new id is never one of those in use. -/
def step (s : State) : Act → Option State
  | .analyse msg response fresh =>
    if (fresh 0).uuid ∈ s.analyses then none else some (handle sv msg response fresh s).2
  | .review actionId status => some (reviewSuggestion py s actionId status).2

/-- The step brings no suggestion that is stored. -/
def StoresNothing : Act → Prop
  | .analyse msg response _ => NothingStored sv msg response
  | .review _ _ => True

variable {sv py} {s t : State}

def noActionId : Err := .exception "Could not locate column in row for column 'action_id'"

theorem entry_of_action {r : Row Cell} (hr : r.names = suggestedTestActions.names) :
    entry py r = .error noActionId := by
  have hnone : r.get "action_id" = none := get_eq_none_of_names hr (by decide)
  unfold entry field
  rw [hnone]
  rfl

theorem mapM_ok {α β : Type} {f : α → Except Err β} {xs : List α} {ys : List β} (h : xs.mapM f = .ok ys) :
    ∀ x ∈ xs, ∃ y, f x = .ok y := by
  induction xs generalizing ys with
  | nil => nofun
  | cons x xs ih =>
    rw [List.mapM_cons] at h
    obtain ⟨y, hy, h⟩ := except_bind_ok h
    obtain ⟨zs, hzs, -⟩ := except_bind_ok h
    exact List.forall_mem_cons.mpr ⟨⟨y, hy⟩, ih hzs⟩

/-- The listing returns only while there is nothing to list. -/
theorem reviewable_iff (hs : WellFormed s) : Reviewable py s ↔ s.actions = [] := by
  constructor
  · rintro ⟨entries, hlist, -⟩
    rw [List.eq_nil_iff_forall_not_mem]
    intro r hr
    have hselected : r ∈ selected s none := by
      rw [selected, List.mem_insertionSort, List.mem_filter]
      exact ⟨hr, rfl⟩
    obtain ⟨e, he⟩ := mapM_ok hlist r hselected
    rw [entry_of_action (hs r hr)] at he
    cases he
  · intro hnil
    refine ⟨[], ?_, ?_, fun e he => absurd he List.not_mem_nil⟩
    · rw [listSuggestions, selected, hnil]
      rfl
    · rw [hnil]
      exact List.Perm.refl []

/-- A review that names a status is refused by the database. -/
theorem reviewSuggestion_refused {status : String} (h : status = "approved" ∨ status = "rejected") (s : State)
    (actionId : Uuid) :
    reviewSuggestion py s actionId status = (.error (refused (.undefinedColumn "action_id")), s) := by
  have hno : ¬ (status ≠ "approved" ∧ status ≠ "rejected") := fun hne => h.elim hne.1 hne.2
  rw [reviewSuggestion, if_neg hno, update_undefined (by decide) (by decide)]

theorem reviewSuggestion_state (s : State) (actionId : Uuid) (status : String) :
    (reviewSuggestion py s actionId status).2 = s := by
  by_cases h : status = "approved" ∨ status = "rejected"
  · rw [reviewSuggestion_refused h]
  · rw [reviewSuggestion, if_pos (not_or.mp h)]

theorem step_iff {a : Act} (hs : s.actions = []) (hstep : step sv py s a = some t) :
    (StoresNothing sv a ↔ Reviewable py t) ∧ (StoresNothing sv a → t.actions = []) := by
  have hwell : WellFormed s := by
    intro r hr
    rw [hs] at hr
    cases hr
  cases a with
  | analyse msg response fresh =>
    rw [step] at hstep
    split at hstep
    next => cases hstep
    next hid =>
      cases hstep
      have hkeeps : WellFormed (handle sv msg response fresh s).2 := (adds_handle msg response s).1 hwell
      have hempty : _ ↔ NothingStored sv msg response := handle_empty_iff hs hid msg response
      exact ⟨hempty.symm.trans (reviewable_iff hkeeps).symm, hempty.mpr⟩
  | review actionId status =>
    cases hstep
    rw [reviewSuggestion_state]
    exact ⟨iff_of_true trivial ((reviewable_iff hwell).mpr hs), fun _ => hs⟩

/-- The suggestions can be listed and reviewed throughout a run exactly when the run stores none. -/
theorem suggestions_reviewable_iff (as : List Act) :
    Always (step sv py) (fun _ a _ => StoresNothing sv a) initial as ↔
      Always (step sv py) (fun _ _ t => Reviewable py t) initial as :=
  always_iff_of_invariant (I := fun s => s.actions = []) (fun _ _ _ hs hstep => step_iff hs hstep) rfl

end System

/-- A release, and a response that suggests one test for it. -/
def oneSuggestion : Value :=
  .obj [(Value.key "coverage_gaps", .arr []), (Value.key "suggestions", .arr [.obj [
    (Value.key "slug", .str (Value.key "test-slug")), (Value.key "definition_raw", .str (Value.key "---"))]])]

def response : String := "\x7b\"coverage_gaps\": [], \"suggestions\": [\x7b\"slug\": \"test-slug\", \"definition_raw\": \"---\"\x7d]\x7d"

def services : Services where
  loads text := if text = response.toList then .ok oneSuggestion else .error (.exception "Expecting value")
  acceptsAnalysis _ _ _ _ := true

def freshIds (k : ℕ) : Fresh := ⟨toString k, k⟩

def utc : Python := ⟨toString⟩

def storedAction : Row Cell :=
  [("id", some (.uuid "1")), ("session_id", none), ("analysis_id", some (.uuid "0")),
    ("definition_raw", some (.text "---")), ("status", some (.text "pending")), ("reviewed_by", none),
    ("reviewed_at", none), ("created_at", some (.timestamp 1))]

theorem stored_suggestion_lost :
    exec (step services utc) initial [.analyse (.obj []) (.ok response) freshIds] = some ⟨["0"], [storedAction]⟩ ∧
      listSuggestions utc ⟨["0"], [storedAction]⟩ none = .error noActionId ∧
      (reviewSuggestion utc ⟨["0"], [storedAction]⟩ "1" "approved").1 =
        .error (.exception "column \"action_id\" does not exist") ∧
      ¬ Reviewable utc ⟨["0"], [storedAction]⟩ := by
  have hselected : selected ⟨["0"], [storedAction]⟩ none = [storedAction] := rfl
  have hlist : listSuggestions utc ⟨["0"], [storedAction]⟩ none = .error noActionId := by
    rw [listSuggestions, hselected, List.mapM_cons, entry_of_action rfl]
    rfl
  refine ⟨by decide +kernel, hlist, ?_, ?_⟩
  · rw [reviewSuggestion_refused (.inl rfl)]
    rfl
  · rintro ⟨entries, hentries, -⟩
    rw [hlist] at hentries
    cases hentries

end ReleaseValidation.Orchestrator.SuggestionReview
