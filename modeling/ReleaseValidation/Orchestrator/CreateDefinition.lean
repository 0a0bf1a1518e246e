import ReleaseValidation.Foundations.Fences
import ReleaseValidation.Orchestrator.DefinitionRows
import ReleaseValidation.TestRunner.Interpreter

/-! # Definitions that are posted

The endpoint stores the definition of a request: what the front matter says of it, and the
document itself. Only an identifier is asked for; the other members have defaults, and a
priority that is none becomes the default too.
-/
namespace ReleaseValidation.Orchestrator.TestDefinitions
open Fences JsonTexts Programs Store TestRunner.Interpreter

/-- `^---\n(.*?)\n---\n(.*)$`. -/
def frontmatter : Fence := strict "---".toList

/-- `VALID_PRIORITIES`. -/
def validPriorities : List Str := ["low", "medium", "high", "critical"].map Value.key

def unprocessable (detail : String) : Err := .exception ("422: " ++ detail)

/-- A priority that is not one of those becomes the default. -/
def knownPriority (priority : Yaml) : Except Err Yaml := do
  return if ← priority.isIn validPriorities then priority else .text "medium"

section Endpoint
variable (sv : Services) (content : List Char)

/-- The insertion for the decoded front matter. -/
def storeDefinition (front : Yaml) : Except Err Row := do
  let slug := (← front.get "id" .null).orElse (← front.get "slug" .null)
  if slug.truthy = false then throw (unprocessable "YAML frontmatter must include 'id' field (used as slug)")
  else
    let priority ← knownPriority (← front.get "priority" (.text "medium"))
    let tags := (← front.get "tags" (.seq [])).listed
    insert sv {
      slug := slug
      name := ← front.get "name" slug
      version := ← sv.int (← front.get "version" (.int 1))
      tags := tags
      component := ← front.get "component" .null
      priority := priority
      timeoutSeconds := ← sv.int (← front.get "timeout_seconds" (.int 120))
      releaseIntroduced := ← front.get "release_introduced" .null
      definitionRaw := content
      definitionParsed := front
      minNodeMajorVersion := none
      category := ← front.get "category" .null
      phase := ← front.get "phase" .null }

def createDefinition : Except Err Row :=
  match frontmatter.enclosed content with
  | none => .error (unprocessable "Content must start with YAML frontmatter (---)")
  | some (yamlText, _) =>
    match sv.load yamlText with
    | .error e => .error (unprocessable ("Invalid YAML frontmatter: " ++ e.text))
    | .ok front => storeDefinition sv content front

end Endpoint

def slugOf (m : Members) : Yaml := (m.getD "id" .null).orElse (m.getD "slug" .null)

variable {sv : Services} {content : List Char} {m : Members} {row : Row}

/-- The row is what the endpoint stores for the members. -/
structure Creates (sv : Services) (content : List Char) (m : Members) (row : Row) : Prop where
  slug : slugOf m = .str row.slug ∧ storable row.slug = true
  slug_truthy : (slugOf m).truthy = true
  name : m.getD "name" (slugOf m) = .str row.name ∧ storable row.name = true
  version : sv.int (m.getD "version" (.int 1)) = .ok row.version ∧ Int4 row.version
  tags : sv.array (m.getD "tags" (.seq [])).listed = .ok row.tags
  component : m.getD "component" .null = cell row.component ∧ ∀ s ∈ row.component, storable s = true
  priority : knownPriority (m.getD "priority" (.text "medium")) = .ok (.str row.priority) ∧ row.priority ∈ testPriority
  timeoutSeconds : sv.int (m.getD "timeout_seconds" (.int 120)) = .ok row.timeoutSeconds ∧ Int4 row.timeoutSeconds
  releaseIntroduced : m.getD "release_introduced" .null = cell row.releaseIntroduced ∧
    ∀ s ∈ row.releaseIntroduced, storable s = true
  definitionRaw : content = row.definitionRaw ∧ StorableText row.definitionRaw
  definitionParsed : sv.jsonb (.map m) = .ok row.definitionParsed
  minNodeMajorVersion : row.minNodeMajorVersion = 1
  category : m.getD "category" .null = cell row.category ∧ ∀ s ∈ row.category, storable s = true
  phase : m.getD "phase" .null = cell row.phase ∧ ∀ s ∈ row.phase, storable s = true

theorem storeDefinition_ok : storeDefinition sv content (.map m) = .ok row ↔ Creates sv content m row := by
  simp only [storeDefinition, Yaml.get, except_bind_ok_iff, Except.ok.injEq, exists_eq_left']
  by_cases hslug : (slugOf m).truthy = true
  · rw [if_neg (by exact fun h => by rw [slugOf, h] at hslug; cases hslug)]
    simp only [except_bind_ok_iff, Except.ok.injEq, exists_eq_left', insert_ok]
    constructor
    · rintro ⟨priority, hpriority, version, hversion, timeout, htimeout, h⟩
      obtain ⟨rfl, hversion'⟩ := h.version
      obtain ⟨rfl, htimeout'⟩ := h.timeoutSeconds
      obtain ⟨rfl, hpriority'⟩ := h.priority
      exact ⟨h.slug, hslug, h.name, ⟨hversion, hversion'⟩, h.tags, h.component, ⟨hpriority, hpriority'⟩,
        ⟨htimeout, htimeout'⟩, h.releaseIntroduced, h.definitionRaw, h.definitionParsed, h.minNodeMajorVersion.1.symm,
        h.category, h.phase⟩
    · intro h
      refine ⟨_, h.priority.1, _, h.version.1, _, h.timeoutSeconds.1, ?_⟩
      exact ⟨h.slug, h.name, ⟨rfl, h.version.2⟩, h.tags, h.component, ⟨rfl, h.priority.2⟩, ⟨rfl, h.timeoutSeconds.2⟩,
        h.releaseIntroduced, h.definitionRaw, h.definitionParsed,
        ⟨h.minNodeMajorVersion.symm, by rw [h.minNodeMajorVersion]; decide⟩, h.category, h.phase⟩
  · have hfalse : (slugOf m).truthy = false := Bool.not_eq_true _ ▸ hslug
    rw [if_pos (by exact hfalse)]
    exact iff_of_false (by nofun) fun h => hslug h.slug_truthy

theorem createDefinition_ok :
    createDefinition sv content = .ok row ↔ ∃ m, Finds sv.load frontmatter content m ∧ Creates sv content m row := by
  constructor
  · intro h
    unfold createDefinition at h
    split at h
    next => cases h
    next y rest hy =>
      split at h
      next => cases h
      next front hfront =>
        cases front with
        | map m => exact ⟨m, ⟨y, rest, hy, hfront⟩, storeDefinition_ok.mp h⟩
        | _ => cases h
  · rintro ⟨m, ⟨y, rest, hy, hm⟩, h⟩
    unfold createDefinition
    simp only [hy, hm]
    exact storeDefinition_ok.mpr h

end ReleaseValidation.Orchestrator.TestDefinitions
