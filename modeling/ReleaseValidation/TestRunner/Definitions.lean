import ReleaseValidation.Foundations.Programs
import ReleaseValidation.Foundations.Tables
import ReleaseValidation.Store.Json
import ReleaseValidation.Store.Records

/-! # Test definitions: the loader's cache, and parameter overrides

The loader replaces its cache by the active definitions of the database at every
reload. A command may replace the parsed definition, or override single parameters
of its assertions.
-/
namespace ReleaseValidation.TestRunner
open Store Programs Tables

/-- A row of `tests.definitions`, with the columns that `_reload` selects and a test uses. -/
structure Definition where
  id : Uuid
  slug : String
  timeoutSeconds : ℤ
  definitionParsed : Json

structure DefinitionRow extends Definition where
  isActive : Bool

namespace DefinitionLoader

abbrev Cache := Table Uuid Definition

/-- `_reload`: the cache is built anew from the active rows. -/
def reload (rows : List DefinitionRow) : Cache :=
  (rows.filter DefinitionRow.isActive).foldl (fun c row => c.insert row.id row.toDefinition) ∅

/-- `get`. -/
def get (c : Cache) (definitionId : Uuid) : Option Definition := c.lookup definitionId

theorem mem_foldl_insert {rows : List DefinitionRow} {c : Cache} {k : Uuid} :
    k ∈ rows.foldl (fun c row => c.insert row.id row.toDefinition) c ↔
      k ∈ c ∨ ∃ row ∈ rows, row.id = k := by
  induction rows generalizing c with
  | nil => simp
  | cons row rows ih =>
    rw [List.foldl_cons, ih, AList.mem_insert]
    constructor
    · rintro ((rfl | hk) | ⟨r, hr, rfl⟩)
      · exact .inr ⟨row, List.mem_cons_self, rfl⟩
      · exact .inl hk
      · exact .inr ⟨r, List.mem_cons_of_mem _ hr, rfl⟩
    · rintro (hk | ⟨r, hr, rfl⟩)
      · exact .inl (.inr hk)
      · rcases List.mem_cons.mp hr with rfl | hr
        · exact .inl (.inl rfl)
        · exact .inr ⟨r, hr, rfl⟩

/-- After a reload the cache holds exactly the definitions that were active. -/
theorem mem_reload {rows : List DefinitionRow} {k : Uuid} :
    k ∈ reload rows ↔ ∃ row ∈ rows, row.isActive = true ∧ row.id = k := by
  rw [reload, mem_foldl_insert]
  have hempty : k ∉ (∅ : Cache) := AList.notMem_empty k
  simp only [hempty, false_or, List.mem_filter, and_assoc]

end DefinitionLoader

namespace Overrides
variable (int : String → Option ℤ)

/-- `assertions.<N>.<leaf>`, split at its first two dots. -/
def path (k : String) : Option (String × String) :=
  match k.splitOn "." with
  | "assertions" :: idx :: leaf :: rest => some (idx, String.intercalate "." (leaf :: rest))
  | _ => none

/-- `asserts[idx][leaf] = v`, if `asserts[idx]` is an object. -/
def setLeaf (leaf : String) (v : Json) : Json → Json
  | .obj fields => .obj (setField leaf v fields)
  | a => a

/-- A path-scoped override. An index out of range, or of something that is no object,
is skipped; a key that is no integer, too. -/
def applyPath (asserts : Json) (idx leaf : String) (v : Json) : Except Err Json :=
  match int idx with
  | none => .ok asserts
  | some i =>
    if i < 0 then .ok asserts
    else do
      let n ← asserts.len
      if i.toNat < n then
        match asserts with
        | .arr items => .ok (.arr (items.modify i.toNat (setLeaf leaf v)))
        | .obj _ => .error (.exception (toString i))
        | a => .ok a
      else .ok asserts

/-- The assertions that own the key; `type` is owned by none. -/
def owners (k : String) (items : List Json) : List ℕ :=
  if k = "type" then []
  else (List.range items.length).filter fun i => (items[i]?.map (Json.owns k)).getD false

/-- An override by a bare key changes the one assertion that owns the key, if one does. -/
def applyBare (asserts : Json) (k : String) (v : Json) : Except Err Json := do
  let items ← asserts.elements
  match owners k items, asserts with
  | [i], .arr items => .ok (.arr (items.modify i (setLeaf k v)))
  | _, a => .ok a

def applyOne (asserts : Json) (override : String × Json) : Except Err Json :=
  match path override.1 with
  | some (idx, leaf) => applyPath int asserts idx leaf override.2
  | none => applyBare asserts override.1 override.2

/-- The merge of the overrides into the parsed definition. A missing or empty list of
assertions is not written back. -/
def merge (definitionParsed : Json) (overrides : List (String × Json)) : Except Err Json := do
  let dp := if definitionParsed.truthy then definitionParsed else .obj []
  let asserts ← dp.get "assertions" (.arr [])
  let merged ← overrides.foldlM (applyOne int) (if asserts.truthy then asserts else .arr [])
  match dp with
  | .obj fields => .ok (if asserts.truthy then .obj (setField "assertions" merged fields) else dp)
  | dp => .ok dp

/-- The definition that a command runs: the parsed definition is replaced by the one the
command carries, or has the command's overrides merged into it. -/
def override (definition : Definition) (parsedOverride parameterOverrides : Json) :
    Except Err Definition :=
  if parsedOverride.truthy || parameterOverrides.truthy then
    -- the keys of the overrides are logged in either case
    match parameterOverrides.truthy, parameterOverrides with
    | false, _ => .ok { definition with definitionParsed := parsedOverride }
    | true, .obj overrides =>
      if parsedOverride.truthy then .ok { definition with definitionParsed := parsedOverride }
      else do
        let dp ← merge int definition.definitionParsed overrides
        .ok { definition with definitionParsed := dp }
    | true, j => .error (j.noAttribute (if parsedOverride.truthy then "keys" else "items"))
  else .ok definition

end Overrides

end ReleaseValidation.TestRunner
