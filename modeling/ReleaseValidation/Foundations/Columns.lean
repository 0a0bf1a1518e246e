import Mathlib.Data.List.Basic

/-! # Tables with named columns

A statement names the columns that it reads and writes, and a name that the table does not
have is an error of the statement when it runs. Every row of a table has the columns of its
schema, in their order.
-/
namespace ReleaseValidation.Columns

variable {V C : Type}

/-- A column; its default is read off the context of the statement. An absent cell is a null. -/
structure Column (V C : Type) where
  name : String
  notNull : Bool
  default : C → Option V

abbrev Schema (V C : Type) := List (Column V C)
abbrev Row (V : Type) := List (String × Option V)

def Schema.names (schema : Schema V C) : List String := schema.map Column.name
def Row.names (row : Row V) : List String := row.map Prod.fst

inductive Refusal
  | undefinedColumn (name : String)
  | nullViolation (name : String)
  deriving DecidableEq, Repr

namespace Row

def get (row : Row V) (name : String) : Option (Option V) := row.lookup name

def set (row : Row V) (name : String) (cell : Option V) : Row V :=
  row.map fun kv => if kv.1 = name then (kv.1, cell) else kv

/-- The cell is there and holds the value. -/
def holds [DecidableEq V] (row : Row V) (name : String) (value : V) : Bool := row.get name == some (some value)

end Row

section Statements
variable (schema : Schema V C)

/-- The row with the given cells, and the defaults for the others. -/
def Schema.complete (context : C) (given : Row V) : Row V :=
  schema.map fun column => (column.name, (given.get column.name).getD (column.default context))

/-- The row that `INSERT INTO … (names) VALUES (cells)` adds. -/
def Schema.insert (context : C) (given : Row V) : Except Refusal (Row V) :=
  match given.names.find? (· ∉ schema.names) with
  | some name => .error (.undefinedColumn name)
  | none =>
    match schema.find? fun column => column.notNull && ((schema.complete context given).get column.name).all (·.isNone) with
    | some column => .error (.nullViolation column.name)
    | none => .ok (schema.complete context given)

/-- The table after `UPDATE … SET set = cell WHERE column = value`, with the updated rows. -/
def Schema.update [DecidableEq V] (rows : List (Row V)) (set : String) (cell : Option V) (column : String) (value : V) :
    Except Refusal (List (Row V) × List (Row V)) :=
  match [set, column].find? (· ∉ schema.names) with
  | some name => .error (.undefinedColumn name)
  | none => .ok
      (rows.map fun row => if row.holds column value then row.set set cell else row,
        (rows.filter fun row => row.holds column value).map fun row => row.set set cell)

end Statements

variable {schema : Schema V C} {row : Row V} {name : String}

theorem get_eq_none_of_names (hrow : row.names = schema.names) (h : name ∉ schema.names) : row.get name = none := by
  rw [Row.get, List.lookup_eq_none_iff]
  intro kv hkv
  have hmem : kv.1 ∈ row.names := List.mem_map_of_mem hkv
  rw [hrow] at hmem
  rw [bne_iff_ne]
  rintro rfl
  exact h hmem

theorem names_complete (context : C) (given : Row V) : (schema.complete context given).names = schema.names := by
  simp only [Schema.complete, Row.names, Schema.names, List.map_map]
  rfl

theorem insert_ok {context : C} {given : Row V} (h : schema.insert context given = .ok row) :
    row = schema.complete context given := by
  unfold Schema.insert at h
  split at h
  next => cases h
  next =>
    split at h
    next => cases h
    next =>
      cases h
      rfl

theorem names_insert {context : C} {given : Row V} (h : schema.insert context given = .ok row) :
    row.names = schema.names := by
  rw [insert_ok h]
  exact names_complete context given

@[simp] theorem names_set (row : Row V) (name : String) (cell : Option V) : (row.set name cell).names = row.names := by
  simp only [Row.set, Row.names, List.map_map]
  refine List.map_congr_left fun kv _ => ?_
  simp only [Function.comp_apply]
  split <;> rfl

/-- A condition on a column that is not there is refused, whatever the table holds. -/
theorem update_undefined [DecidableEq V] {set column : String} (hset : set ∈ schema.names) (h : column ∉ schema.names)
    (rows : List (Row V)) (cell : Option V) (value : V) :
    schema.update rows set cell column value = .error (.undefinedColumn column) := by
  have hfind : [set, column].find? (· ∉ schema.names) = some column := by
    rw [List.find?_cons_of_neg (by simpa using hset), List.find?_cons_of_pos (by simpa using h)]
  rw [Schema.update, hfind]

end ReleaseValidation.Columns
