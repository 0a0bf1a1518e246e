import ReleaseValidation.Foundations.Columns
import ReleaseValidation.GithubWatcher.ReleaseEvents
import ReleaseValidation.Store.Decoded
import ReleaseValidation.Store.Records

/-! # Suggested tests

For each release the analysis consumer asks a model, reads suggestions off its answer and
stores one row for each. Every statement commits on its own, so an error leaves the rows that
came before it. The publishing of the result and the pull request that may follow read no
table and are left out.
-/
namespace ReleaseValidation.AiAgent.Suggestions
open Columns GithubWatcher JsonTexts Programs Programs.Program Store

inductive Cell
  | uuid (u : Uuid)
  | text (s : String)
  | timestamp (t : ℕ)
  deriving DecidableEq, Repr

/-- What a statement takes from outside: a new id and the time. -/
structure Fresh where
  uuid : Uuid
  now : ℕ
  deriving DecidableEq, Repr

/-- `ai.suggested_test_actions` of `init.sql`. -/
def suggestedTestActions : Schema Cell Fresh :=
  [⟨"id", true, fun c => some (.uuid c.uuid)⟩, ⟨"session_id", false, fun _ => none⟩,
    ⟨"analysis_id", false, fun _ => none⟩, ⟨"definition_raw", true, fun _ => none⟩,
    ⟨"status", true, fun _ => some (.text "pending")⟩, ⟨"reviewed_by", false, fun _ => none⟩,
    ⟨"reviewed_at", false, fun _ => none⟩, ⟨"created_at", true, fun c => some (.timestamp c.now)⟩]

/-- The ids of `ai.analyses`, and the rows of `ai.suggested_test_actions`. -/
structure State where
  analyses : List Uuid
  actions : List (Row Cell)
  deriving DecidableEq

def initial : State := ⟨[], []⟩

/-- `json.loads`, and whether the database takes the cells of an analysis. -/
structure Services where
  loads : List Char → Except Err Value
  acceptsAnalysis : AnalysisSource → Value → Value → String → Bool

def refused : Refusal → Err
  | .undefinedColumn name => .exception ("column \"" ++ name ++ "\" does not exist")
  | .nullViolation name => .exception ("null value in column \"" ++ name ++ "\" violates not-null constraint")

section Consumer
variable (sv : Services)

/-- The first match of `\{.*\}`, where the dot matches every character. -/
def jsonMatch (raw : List Char) : Option (List Char) :=
  let matched := ((raw.dropWhile (· != '\x7b')).reverse.dropWhile (· != '\x7d')).reverse
  if matched = [] then none else some matched

/-- `_parse_analysis`: the coverage gaps and the suggestions. -/
def parseAnalysis (raw : String) : Value × Value :=
  match jsonMatch raw.toList with
  | none => (.arr [], .arr [])
  | some text =>
    let parsed : Except Err (Value × Value) := do
      let data ← sv.loads text
      return (← data.get "coverage_gaps" (.arr []), ← data.get "suggestions" (.arr []))
    match parsed with
    | .ok p => p
    | .error _ => (.arr [], .arr [])

/-- The cell of a text column for a bound parameter: a text with neither NULs nor surrogates. -/
def textCell : Value → Except Err (Option Cell)
  | .null => .ok none
  | .str s =>
    if s.all fun c => c.val ≠ 0 ∧ ¬ (0xd800 ≤ c.val ∧ c.val < 0xe000) then
      .ok (some (.text (String.ofList (s.map fun c => Char.ofNat c.val))))
    else .error (.exception "invalid text")
  | v => .error (.exception ("expected str, got " ++ v.typeName))

def insertAnalysis (source : AnalysisSource) (gaps suggestions : Value) (raw : String) (fresh : Fresh) :
    Program State Err Unit := fun s =>
  if fresh.uuid ∉ s.analyses ∧ sv.acceptsAnalysis source gaps suggestions raw = true then
    (.returned (), { s with analyses := s.analyses ++ [fresh.uuid] })
  else (.raised (.exception "analysis not stored"), s)

/-- The row that the consumer inserts for a suggestion. -/
def suggestionRow (analysisId : Uuid) (fresh : Fresh) (suggestion : Value) : Except Err (Row Cell) := do
  let raw ← textCell (← suggestion.get "definition_raw" (.str []))
  match suggestedTestActions.insert fresh [("id", some (.uuid fresh.uuid)), ("analysis_id", some (.uuid analysisId)),
    ("definition_raw", raw), ("status", some (.text "pending"))] with
  | .ok row => pure row
  | .error e => throw (refused e)

def insertSuggestion (analysisId : Uuid) (fresh : Fresh) (suggestion : Value) : Program State Err Unit := do
  let row ← ofExcept (suggestionRow analysisId fresh suggestion)
  fun s =>
    if analysisId ∈ s.analyses ∧ ∀ r ∈ s.actions, r.holds "id" (.uuid fresh.uuid) = false then
      (.returned (), { s with actions := s.actions ++ [row] })
    else (.raised (.exception "violates a key constraint"), s)

def storeSuggestions (analysisId : Uuid) (fresh : ℕ → Fresh) : ℕ → List Value → Program State Err Unit
  | _, [] => pure ()
  | k, v :: vs => do
    insertSuggestion analysisId (fresh k) v
    storeSuggestions analysisId fresh (k + 1) vs

/-- What `_handle` has in hand when it first writes: the event and the model's response. -/
def analysed (msg : Json) (response : Except Err String) : Except Err (AnalysisSource × String) := do
  let source ← prAnalysisConsumer msg
  -- logged, and joined into the prompt
  let _ ← source.prSummaries.len
  let raw ← response
  return (source, raw)

/-- `_handle`, with the model's response and what is fresh at each insertion. -/
def handle (msg : Json) (response : Except Err String) (fresh : ℕ → Fresh) : Program State Err Unit := do
  let (source, raw) ← ofExcept (analysed msg response)
  let (gaps, suggestions) := parseAnalysis sv raw
  insertAnalysis sv source gaps suggestions raw (fresh 0)
  let items ← ofExcept suggestions.elements
  storeSuggestions (fresh 0).uuid fresh 1 items

/-- The definition that is stored for a suggestion, if it can be. -/
def definitionText (suggestion : Value) : Option Cell :=
  match suggestion.get "definition_raw" (.str []) with
  | .ok v =>
    match textCell v with
    | .ok cell => cell
    | .error _ => none
  | .error _ => none

/-- The suggestions that are tried for a message and a response. -/
def tried (msg : Json) (response : Except Err String) : List Value :=
  match analysed msg response with
  | .error _ => []
  | .ok (source, raw) =>
    let (gaps, suggestions) := parseAnalysis sv raw
    if sv.acceptsAnalysis source gaps suggestions raw = true then
      match suggestions.elements with
      | .ok items => items
      | .error _ => []
    else []

/-- No suggestion is stored: there is none, or the first has no definition that a row can hold. -/
def NothingStored (msg : Json) (response : Except Err String) : Prop :=
  (tried sv msg response).head?.bind definitionText = none

end Consumer

/-! ### What is stored -/

theorem insert_action (fresh : Fresh) (analysisId : Uuid) (cell : Option Cell) :
    suggestedTestActions.insert fresh [("id", some (.uuid fresh.uuid)), ("analysis_id", some (.uuid analysisId)),
      ("definition_raw", cell), ("status", some (.text "pending"))] =
        if cell = none then .error (.nullViolation "definition_raw")
        else .ok [("id", some (.uuid fresh.uuid)), ("session_id", none), ("analysis_id", some (.uuid analysisId)),
          ("definition_raw", cell), ("status", some (.text "pending")), ("reviewed_by", none), ("reviewed_at", none),
          ("created_at", some (.timestamp fresh.now))] := by
  cases cell <;> rfl

/-- A row for the suggestion is inserted exactly when it has a definition to hold. -/
theorem suggestionRow_isOk (analysisId : Uuid) (fresh : Fresh) (v : Value) :
    (suggestionRow analysisId fresh v).isOk = (definitionText v).isSome := by
  unfold suggestionRow definitionText
  cases v.get "definition_raw" (.str []) with
  | error e => rfl
  | ok raw =>
    simp only [bind, Except.bind]
    cases textCell raw with
    | error e => rfl
    | ok cell =>
      simp only [insert_action]
      cases cell <;> rfl

theorem names_suggestionRow {analysisId : Uuid} {fresh : Fresh} {v : Value} {row : Row Cell}
    (h : suggestionRow analysisId fresh v = .ok row) : row.names = suggestedTestActions.names := by
  obtain ⟨raw, -, h⟩ := except_bind_ok h
  obtain ⟨cell, -, h⟩ := except_bind_ok h
  split at h
  next row' hrow =>
    cases h
    exact names_insert hrow
  next => cases h

/-- Every row has the columns of the table. -/
def WellFormed (s : State) : Prop := ∀ r ∈ s.actions, r.names = suggestedTestActions.names

/-- Rows are added behind those that are there, with the columns of the table. -/
def adds : Frame State where
  rel s t := (WellFormed s → WellFormed t) ∧ s.actions <+: t.actions
  refl s := ⟨id, List.prefix_refl _⟩
  trans := by
    rintro s t u ⟨hst, hpre⟩ ⟨htu, hpre'⟩
    exact ⟨fun hs => htu (hst hs), hpre.trans hpre'⟩

variable {sv : Services} {analysisId : Uuid} {fresh : ℕ → Fresh} {s t : State}

theorem adds_insertSuggestion (f : Fresh) (v : Value) :
    Keeps adds (insertSuggestion analysisId f v) := by
  intro s
  unfold insertSuggestion
  cases hrow : suggestionRow analysisId f v with
  | error e => exact adds.refl s
  | ok row =>
    change adds.rel s (if _ then _ else _ : Exit Err Unit × State).2
    split
    next =>
      refine ⟨fun hs r hr => ?_, List.prefix_append _ _⟩
      rcases List.mem_append.mp hr with hold | hnew
      · exact hs r hold
      · rw [List.mem_singleton.mp hnew]
        exact names_suggestionRow hrow
    next => exact adds.refl s

theorem adds_storeSuggestions (k : ℕ) (items : List Value) :
    Keeps adds (storeSuggestions analysisId fresh k items) := by
  induction items generalizing k with
  | nil => exact keeps_pure ()
  | cons v vs ih => exact (adds_insertSuggestion (fresh k) v).bind fun _ => ih (k + 1)

theorem adds_insertAnalysis (source : AnalysisSource) (gaps suggestions : Value) (raw : String) (f : Fresh) :
    Keeps adds (insertAnalysis sv source gaps suggestions raw f) := by
  intro s
  unfold insertAnalysis
  split
  next => exact ⟨id, List.prefix_refl _⟩
  next => exact adds.refl s

theorem keeps_ofExcept {α : Type} (x : Except Err α) : Keeps adds (ofExcept x : Program State Err α) := by
  cases x with
  | ok a => exact keeps_pure a
  | error e => exact keeps_raise e

theorem adds_handle (msg : Json) (response : Except Err String) : Keeps adds (handle sv msg response fresh) :=
  (keeps_ofExcept _).bind fun p => (adds_insertAnalysis p.1 _ _ p.2 _).bind fun _ =>
    (keeps_ofExcept _).bind fun items => adds_storeSuggestions 1 items

/-- The first suggestion decides whether a row is added to an empty table. -/
theorem storeSuggestions_empty_iff (hs : s.actions = []) (hid : analysisId ∈ s.analyses) (k : ℕ) (items : List Value) :
    (storeSuggestions analysisId fresh k items s).2.actions = [] ↔ items.head?.bind definitionText = none := by
  cases items with
  | nil => exact iff_of_true hs rfl
  | cons v vs =>
    have hok := suggestionRow_isOk analysisId (fresh k) v
    rw [List.head?_cons, Option.bind_some]
    cases hrow : suggestionRow analysisId (fresh k) v with
    | error e =>
      rw [hrow] at hok
      have hnone : definitionText v = none := Option.not_isSome_iff_eq_none.mp (by rw [← hok]; nofun)
      have hraise : insertSuggestion analysisId (fresh k) v s = (.raised e, s) := by
        rw [insertSuggestion, hrow]
        rfl
      rw [storeSuggestions, bind_raised hraise]
      exact iff_of_true hs hnone
    | ok row =>
      rw [hrow] at hok
      have hsome : definitionText v ≠ none := Option.isSome_iff_ne_none.mp hok.symm
      have hins : insertSuggestion analysisId (fresh k) v s = (.returned (), { s with actions := [row] }) := by
        rw [insertSuggestion, hrow]
        change (if _ then _ else _) = _
        rw [if_pos ⟨hid, by rw [hs]; exact fun _ h => by cases h⟩, hs]
        rfl
      rw [storeSuggestions, bind_returned hins]
      refine iff_of_false (fun hnil => ?_) hsome
      have hkeeps : Keeps adds (storeSuggestions analysisId fresh (k + 1) vs) := adds_storeSuggestions (k + 1) vs
      have hgrow := (hkeeps { s with actions := [row] }).2
      rw [hnil] at hgrow
      cases List.prefix_nil.mp hgrow

/-- An analysis that finds the table empty leaves it empty exactly when nothing is stored. -/
theorem handle_empty_iff (hs : s.actions = []) (hid : (fresh 0).uuid ∉ s.analyses) (msg : Json)
    (response : Except Err String) :
    (handle sv msg response fresh s).2.actions = [] ↔ NothingStored sv msg response := by
  unfold handle NothingStored tried
  cases analysed msg response with
  | error e => exact iff_of_true hs rfl
  | ok p =>
    obtain ⟨source, raw⟩ := p
    have hread : (ofExcept (.ok (source, raw)) : Program State Err (AnalysisSource × String)) s =
        (.returned (source, raw), s) := rfl
    rw [bind_returned hread]
    simp only
    generalize parseAnalysis sv raw = parsed
    by_cases hacc : sv.acceptsAnalysis source parsed.1 parsed.2 raw = true
    · have hins : insertAnalysis sv source parsed.1 parsed.2 raw (fresh 0) s =
          (.returned (), { s with analyses := s.analyses ++ [(fresh 0).uuid] }) := if_pos ⟨hid, hacc⟩
      rw [bind_returned hins, if_pos hacc]
      cases parsed.2.elements with
      | error e => exact iff_of_true hs rfl
      | ok items =>
        exact storeSuggestions_empty_iff (s := { s with analyses := s.analyses ++ [(fresh 0).uuid] }) hs
          (List.mem_append_right _ (List.mem_singleton_self _)) 1 items
    · have hins : insertAnalysis sv source parsed.1 parsed.2 raw (fresh 0) s =
          (.raised (.exception "analysis not stored"), s) := if_neg fun h => hacc h.2
      rw [bind_raised hins, if_neg hacc]
      exact iff_of_true hs rfl

end ReleaseValidation.AiAgent.Suggestions
