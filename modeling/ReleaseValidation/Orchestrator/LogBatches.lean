import ReleaseValidation.Orchestrator.DefinitionRows

/-! # Batches of log lines

`_store_log_batch` turns the entries of a batch into the elements of one JSON text, which one
`INSERT … SELECT` takes apart. A text with a NUL or a surrogate fails the cast to jsonb, and a
timestamp that cannot be read fails the cast of its element. Either fails the statement, and
the handler of the exception leaves the whole batch out.
-/
namespace ReleaseValidation.Orchestrator.LogBatches
open JsonTexts TestDefinitions

variable {Run Time : Type}

/-- `str()` of what is not a text, and the casts of a JSON member to `uuid` and to `timestamptz`. -/
structure Services (Run Time : Type) where
  repr : Value → Str
  uuid : Value → Option Run
  timestamp : Value → Option Time

structure Line (Time : Type) where
  source : Str
  level : Str
  message : Str
  ts : Time
  deriving DecidableEq

/-- `orchestrator.runs` by their ids, and the rows of `orchestrator.run_logs` in the order of their ids. -/
structure RunLogs (Run Time : Type) where
  runs : List Run
  rows : List (Run × Line Time)

/-- An entry of the batch, and what `datetime.now().isoformat()` returns when the loop comes to it. -/
structure Entry where
  value : Value
  now : Str

/-- An element of `rows`. -/
structure Parameters where
  runId : Value
  source : Str
  level : Str
  message : Str
  ts : Value

section Batch
variable (sv : Services Run Time)

def str (v : Value) : Str :=
  match v with
  | .str s => s
  | v => sv.repr v

/-- `entry.get(name, default)`. -/
def get (fields : List (Str × Value)) (name default : String) : Value :=
  (fields.lookup (Value.key name)).getD (.str (Value.key default))

def parameters (runId : Value) (e : Entry) : Option Parameters :=
  match e.value with
  | .obj fields =>
    let ts := (fields.lookup (Value.key "ts")).getD .null
    some
      { runId := runId
        source := (str sv (get fields "source" "unknown")).take 64
        level := str sv (get fields "level" "info")
        message := (str sv (get fields "message" "")).take 4096
        ts := if ts.truthy then ts else .str e.now }
  | _ => none

def Parameters.json (p : Parameters) : Value :=
  .obj [(Value.key "run_id", p.runId), (Value.key "source", .str p.source), (Value.key "level", .str p.level),
    (Value.key "message", .str p.message), (Value.key "ts", p.ts)]

/-- What the cast of the written value to jsonb takes. -/
def jsonb (v : Value) : Bool := finite v && (strings v).all storable

/-- The columns of an element, which has to be of a run that is there. -/
def columns (db : RunLogs Run Time) [DecidableEq Run] (p : Parameters) : Option (Run × Line Time) := do
  let run ← sv.uuid p.runId
  let ts ← sv.timestamp p.ts
  if run ∈ db.runs then some (run, ⟨p.source, p.level, p.message, ts⟩) else none

/-- The rows of the statement, `none` if it fails. -/
def insertRows [DecidableEq Run] (db : RunLogs Run Time) (rows : List Parameters) : Option (List (Run × Line Time)) :=
  if jsonb (.arr (rows.map Parameters.json)) then rows.mapM (columns sv db) else none

/-- `_store_log_batch`. -/
def storeLogBatch [DecidableEq Run] (db : RunLogs Run Time) (runId : Value) (lines : List Entry) : RunLogs Run Time :=
  match lines.filterMap (parameters sv runId) with
  | [] => db
  | rows =>
    match insertRows sv db rows with
    | some new => { db with rows := db.rows ++ new }
    | none => db

/-- The line of an element whose texts can be stored and whose timestamp can be read. -/
def Parameters.line (p : Parameters) : Option (Line Time) :=
  if jsonb p.ts && storable p.source && storable p.level && storable p.message then
    (sv.timestamp p.ts).map fun ts => ⟨p.source, p.level, p.message, ts⟩
  else none

/-- The lines of the entries that can be stored. -/
def storableLines (runId : Value) (lines : List Entry) : List (Line Time) :=
  (lines.filterMap (parameters sv runId)).filterMap (Parameters.line sv)

/-- The table has, next to its rows, one row of the run for each entry that can be stored. -/
def Stored (runId : Value) (lines : List Entry) (db db' : RunLogs Run Time) : Prop :=
  ∃ new, db'.rows = db.rows ++ new ∧ (∀ r ∈ new, sv.uuid runId = some r.1) ∧
    (new.map Prod.snd).Perm (storableLines sv runId lines)

/-- The run of the event is there. -/
def KnownRun (db : RunLogs Run Time) (runId : Value) : Prop :=
  jsonb runId = true ∧ ∃ run ∈ db.runs, sv.uuid runId = some run

end Batch

theorem stringsOfItems_eq (vs : List Value) : stringsOfItems vs = vs.flatMap strings := by
  induction vs with
  | nil => rfl
  | cons v vs ih => rw [stringsOfItems, ih, List.flatMap_cons]

theorem finiteItems_eq (vs : List Value) : finiteItems vs = vs.all finite := by
  induction vs with
  | nil => rfl
  | cons v vs ih => rw [finiteItems, ih, List.all_cons]

theorem jsonb_arr (vs : List Value) : jsonb (.arr vs) = true ↔ ∀ v ∈ vs, jsonb v = true := by
  simp only [jsonb, finite, strings, finiteItems_eq, stringsOfItems_eq, List.all_flatMap, Bool.and_eq_true,
    List.all_eq_true, forall_and]

theorem jsonb_str (s : Str) : jsonb (.str s) = storable s := by
  simp [jsonb, finite, strings]

theorem jsonb_obj (fields : List (Str × Value)) :
    jsonb (.obj fields) = fields.all fun kv => storable kv.1 && jsonb kv.2 := by
  simp only [jsonb, finite, strings]
  induction fields with
  | nil => rfl
  | cons kv fields ih =>
    obtain ⟨k, v⟩ := kv
    rw [List.all_cons, ← ih, finiteFields, stringsOfFields, List.all_cons, List.all_append]
    cases storable k <;> cases finite v <;> cases (strings v).all storable <;> simp

theorem jsonb_json (p : Parameters) : jsonb p.json = true ↔ jsonb p.runId = true ∧
    (jsonb p.ts && storable p.source && storable p.level && storable p.message) = true := by
  have hkeys : ∀ name ∈ ["run_id", "source", "level", "message", "ts"], storable (Value.key name) = true := by decide
  have hrun := hkeys "run_id" (by simp)
  have hsource := hkeys "source" (by simp)
  have hlevel := hkeys "level" (by simp)
  have hmessage := hkeys "message" (by simp)
  have hts := hkeys "ts" (by simp)
  rw [Parameters.json, jsonb_obj, List.all_cons, List.all_cons, List.all_cons, List.all_cons, List.all_cons,
    hrun, hsource, hlevel, hmessage, hts, List.all_nil, jsonb_str, jsonb_str, jsonb_str]
  simp only [Bool.true_and, Bool.and_true, Bool.and_eq_true]
  tauto

/-- A statement takes all of its elements or none. -/
theorem mapM_eq_some_iff {α β : Type} {f : α → Option β} {xs : List α} {ys : List β} :
    xs.mapM f = some ys ↔ (∀ x ∈ xs, (f x).isSome = true) ∧ ys = xs.filterMap f := by
  induction xs generalizing ys with
  | nil =>
    constructor
    · intro h
      exact ⟨fun x hx => absurd hx List.not_mem_nil, (Option.some.inj h).symm⟩
    · rintro ⟨-, rfl⟩
      rfl
  | cons x xs ih =>
    rw [List.mapM_cons, List.forall_mem_cons]
    cases hx : f x with
    | none => simp
    | some y =>
      rw [List.filterMap_cons_some hx]
      cases hxs : xs.mapM f with
      | none =>
        have hno : ¬ ∀ x' ∈ xs, (f x').isSome = true := fun h => by
          cases hxs.symm.trans (ih.mpr ⟨h, rfl⟩)
        simp [hno]
      | some zs =>
        obtain ⟨hall, rfl⟩ := ih.mp hxs
        simp only [Option.isSome_some, true_and, and_iff_right hall]
        exact ⟨fun h => (Option.some.inj h).symm, fun h => congrArg some h.symm⟩

section Storing
variable [DecidableEq Run] {sv : Services Run Time} {db : RunLogs Run Time} {runId : Value} {lines : List Entry}

theorem columns_isSome {p : Parameters} : (columns sv db p).isSome = true ↔
    (∃ run ∈ db.runs, sv.uuid p.runId = some run) ∧ (sv.timestamp p.ts).isSome = true := by
  simp only [columns, Option.bind_eq_bind]
  cases hrun : sv.uuid p.runId with
  | none => simp
  | some run =>
    cases hts : sv.timestamp p.ts with
    | none => simp
    | some ts =>
      by_cases hmem : run ∈ db.runs
      · simp [hmem]
      · simp [hmem]

/-- The row of an element is its line under the run. -/
theorem columns_eq_some {p : Parameters} {r : Run × Line Time} (h : columns sv db p = some r) :
    sv.uuid p.runId = some r.1 ∧ ∃ ts, sv.timestamp p.ts = some ts ∧ r.2 = ⟨p.source, p.level, p.message, ts⟩ := by
  simp only [columns, Option.bind_eq_bind] at h
  obtain ⟨run, hrun, h⟩ := Option.bind_eq_some_iff.mp h
  obtain ⟨ts, hts, h⟩ := Option.bind_eq_some_iff.mp h
  split at h
  next =>
    cases h
    exact ⟨hrun, ts, hts, rfl⟩
  next => cases h

omit [DecidableEq Run] in
theorem line_isSome {p : Parameters} : (p.line sv).isSome = true ↔
    (jsonb p.ts && storable p.source && storable p.level && storable p.message) = true ∧
      (sv.timestamp p.ts).isSome = true := by
  unfold Parameters.line
  split
  next h => simp [h]
  next h => simp [h]

omit [DecidableEq Run] in
theorem runId_parameters {e : Entry} {p : Parameters} (h : parameters sv runId e = some p) : p.runId = runId := by
  unfold parameters at h
  split at h
  next =>
    cases h
    rfl
  next => cases h

/-- The statement goes through when the run is there and each of its elements can be stored. -/
theorem insertRows_isSome {rows : List Parameters} (hne : rows ≠ []) (hrows : ∀ p ∈ rows, p.runId = runId) :
    (insertRows sv db rows).isSome = true ↔ KnownRun sv db runId ∧ ∀ p ∈ rows, (p.line sv).isSome = true := by
  have hstatement : (insertRows sv db rows).isSome = true ↔
      (∀ p ∈ rows, jsonb p.json = true) ∧ ∀ p ∈ rows, (columns sv db p).isSome = true := by
    rw [insertRows, ← List.forall_mem_map (P := fun v => jsonb v = true), ← jsonb_arr]
    split
    next h =>
      rw [Option.isSome_iff_exists]
      simp only [h, mapM_eq_some_iff, exists_and_left, exists_eq, and_true, true_and]
    next h => exact iff_of_false (by simp) fun hboth => h hboth.1
  have helement : ∀ p ∈ rows, (jsonb p.json = true ∧ (columns sv db p).isSome = true ↔
      KnownRun sv db runId ∧ (p.line sv).isSome = true) := by
    intro p hp
    rw [jsonb_json, columns_isSome, line_isSome, hrows p hp, KnownRun]
    tauto
  rw [hstatement]
  constructor
  · rintro ⟨hjson, hcolumns⟩
    have hboth : ∀ p ∈ rows, KnownRun sv db runId ∧ (p.line sv).isSome = true :=
      fun p hp => (helement p hp).mp ⟨hjson p hp, hcolumns p hp⟩
    obtain ⟨p, hp⟩ := List.exists_mem_of_ne_nil rows hne
    exact ⟨(hboth p hp).1, fun q hq => (hboth q hq).2⟩
  · rintro ⟨hrun, hline⟩
    exact ⟨fun p hp => ((helement p hp).mpr ⟨hrun, hline p hp⟩).1,
      fun p hp => ((helement p hp).mpr ⟨hrun, hline p hp⟩).2⟩

/-- The rows of a statement that goes through are the lines of its elements. -/
theorem insertRows_lines {rows : List Parameters} (hrows : ∀ p ∈ rows, p.runId = runId)
    {new : List (Run × Line Time)} (h : insertRows sv db rows = some new) :
    (∀ r ∈ new, sv.uuid runId = some r.1) ∧ new.map Prod.snd = rows.filterMap (Parameters.line sv) := by
  unfold insertRows at h
  split at h
  next hjson =>
    obtain ⟨hall, rfl⟩ := mapM_eq_some_iff.mp h
    have hline : ∀ p ∈ rows, (columns sv db p).map Prod.snd = p.line sv := by
      intro p hp
      obtain ⟨r, hr⟩ := Option.isSome_iff_exists.mp (hall p hp)
      obtain ⟨-, ts, hts, hsnd⟩ := columns_eq_some hr
      have hpjson : jsonb p.json = true := (jsonb_arr _).mp hjson _ (List.mem_map_of_mem hp)
      rw [hr, Option.map_some, hsnd, Parameters.line, if_pos ((jsonb_json p).mp hpjson).2, hts, Option.map_some]
    refine ⟨fun r hr => ?_, ?_⟩
    · obtain ⟨p, hp, hpr⟩ := List.mem_filterMap.mp hr
      exact hrows p hp ▸ (columns_eq_some hpr).1
    · rw [List.map_filterMap]
      exact List.filterMap_congr hline
  next => cases h

end Storing

/-- The casts of the one run and the one time below. -/
def sample : Services ℕ ℕ where
  repr _ := []
  uuid v := match v with
    | .str s => if s = Value.key "6d1f0c52-8a3e-4b7a-9a55-0c7e2f1b9d10" then some 1 else none
    | _ => none
  timestamp v := match v with
    | .str s => if s = Value.key "2025-06-01T12:00:00+00:00" then some 0 else none
    | _ => none

def sampleRun : Value := .str (Value.key "6d1f0c52-8a3e-4b7a-9a55-0c7e2f1b9d10")

def logLine (message : Str) : Entry where
  value := .obj [(Value.key "source", .str (Value.key "advancer")), (Value.key "level", .str (Value.key "info")),
    (Value.key "message", .str message), (Value.key "ts", .str (Value.key "2025-06-01T12:00:00+00:00"))]
  now := []

/-- A line of the node, and one with a NUL. -/
def nulBatch : List Entry := [logLine (Value.key "epoch 1 is open"), logLine [0]]

end ReleaseValidation.Orchestrator.LogBatches
