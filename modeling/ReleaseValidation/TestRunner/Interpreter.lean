import ReleaseValidation.Foundations.Fences
import ReleaseValidation.Store.Yaml

/-! # Definition documents, as the test runner reads them

A document has YAML front matter and a body in Markdown. The interpreter gives the members of
the front matter, with the body and some defaults among them.
-/
namespace ReleaseValidation.TestRunner.Interpreter
open Fences JsonTexts Programs Store

/-- `FRONTMATTER_RE`: `^---\s*\n(.*?)\n---\s*(?:\n|$)`. -/
def frontmatterRe : Fence := loose "---".toList true

def required : List String := ["id", "name", "assertions"]

def missing (m : Members) : Option String := required.find? fun name => (m.get? name).isNone

/-- `text.strip()`, as code points. -/
def stripped (text : List Char) : Str :=
  (((text.dropWhile white).reverse.dropWhile white).reverse).map fun c => Fin.ofNat _ c.toNat

/-- The members with the body, and with the defaults for those that are absent. -/
def completed (body : List Char) (m : Members) : Members :=
  (((((m.setItem "body" (.str (stripped body))).setDefault "timeout_seconds" (.int 120)).setDefault "tags" (.seq [])).setDefault
    "inputs" (.map [])).setDefault "requires" (.seq [])).setDefault "version" (.int 1)

section Parsing
variable (load : List Char → Except LoadError Yaml)

def parseDefinition (raw : List Char) : Except Err Members :=
  match frontmatterRe.enclosed raw with
  | none => .error (.exception "Definition must start with YAML frontmatter (---...---)")
  | some (yamlText, body) =>
    match load yamlText with
    | .error e => .error (.exception (if e.isYamlError then "Invalid YAML frontmatter: " ++ e.text else e.text))
    | .ok (.map m) =>
      match missing m with
      | some name => .error (.exception ("Missing required frontmatter field: '" ++ name ++ "'"))
      | none => .ok (completed body m)
    | .ok _ => .error (.exception "YAML frontmatter must be a mapping")

/-- The members of the front matter that a fence encloses. -/
def Finds (fence : Fence) (text : List Char) (m : Members) : Prop :=
  ∃ y rest, fence.enclosed text = some (y, rest) ∧ load y = .ok (.map m)

end Parsing

variable {load : List Char → Except LoadError Yaml} {raw : List Char} {m d : Members}

theorem missing_eq_none : missing m = none ↔ ∀ name ∈ required, (m.get? name).isSome = true := by
  rw [missing, List.find?_eq_none]
  refine forall₂_congr fun name _ => ?_
  rw [Bool.not_eq_true, Option.isNone_eq_false_iff]

theorem parseDefinition_ok :
    parseDefinition load raw = .ok d ↔ ∃ y body m, frontmatterRe.enclosed raw = some (y, body) ∧ load y = .ok (.map m) ∧
      missing m = none ∧ d = completed body m := by
  constructor
  · intro h
    unfold parseDefinition at h
    split at h
    next => cases h
    next y body hy =>
      split at h
      next => cases h
      next m hm =>
        split at h
        next => cases h
        next hmissing =>
          cases h
          exact ⟨y, body, m, hy, hm, hmissing, rfl⟩
      next => cases h
  · rintro ⟨y, body, m, hy, hm, hmissing, rfl⟩
    unfold parseDefinition
    simp only [hy, hm, hmissing]

/-- The other members are those of the front matter. -/
theorem get?_completed (body : List Char) {k : String}
    (hk : k ∉ ["body", "timeout_seconds", "tags", "inputs", "requires", "version"]) :
    (completed body m).get? k = m.get? k := by
  simp only [List.mem_cons, List.not_mem_nil, or_false, not_or] at hk
  obtain ⟨hbody, htimeout, htags, hinputs, hrequires, hversion⟩ := hk
  rw [completed, Members.get?_setDefault_ne hversion, Members.get?_setDefault_ne hrequires,
    Members.get?_setDefault_ne hinputs, Members.get?_setDefault_ne htags, Members.get?_setDefault_ne htimeout,
    Members.get?_setItem_ne hbody]

theorem version_completed (body : List Char) :
    (completed body m).get? "version" = some (m.getD "version" (.int 1)) := by
  rw [completed, Members.get?_setDefault_self]
  simp [Members.getD]

theorem tags_completed (body : List Char) : (completed body m).get? "tags" = some (m.getD "tags" (.seq [])) := by
  rw [completed]
  simp [Members.getD]

theorem timeoutSeconds_completed (body : List Char) :
    (completed body m).get? "timeout_seconds" = some (m.getD "timeout_seconds" (.int 120)) := by
  rw [completed]
  simp [Members.getD]

end ReleaseValidation.TestRunner.Interpreter
