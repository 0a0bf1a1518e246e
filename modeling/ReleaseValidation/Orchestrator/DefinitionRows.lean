import ReleaseValidation.Store.Yaml

/-! # Rows of `tests.definitions`

The driver takes for a column only what has the column's type: for a text column a text that
has neither NULs nor surrogates, for an integer column what four bytes hold.
-/
namespace ReleaseValidation.Orchestrator.TestDefinitions
open JsonTexts Programs Store

/-- `yaml.safe_load`, `int()`, and what a `TEXT[]` column and a JSON column hold of a value given to them. -/
structure Services where
  load : List Char → Except LoadError Yaml
  int : Yaml → Except Err ℤ
  array : Yaml → Except Err Yaml
  jsonb : Yaml → Except Err Yaml

structure Row where
  slug : Str
  name : Str
  version : ℤ
  tags : Yaml
  component : Option Str
  priority : Str
  timeoutSeconds : ℤ
  releaseIntroduced : Option Str
  definitionRaw : List Char
  definitionParsed : Yaml
  minNodeMajorVersion : ℤ
  category : Option Str
  phase : Option Str

/-- The parameters of an insertion; without a `min_node_major_version` the column has its default. -/
structure Parameters where
  slug : Yaml
  name : Yaml
  version : ℤ
  tags : Yaml
  component : Yaml
  priority : Yaml
  timeoutSeconds : ℤ
  releaseIntroduced : Yaml
  definitionRaw : List Char
  definitionParsed : Yaml
  minNodeMajorVersion : Option ℤ
  category : Yaml
  phase : Yaml

/-- The enumeration `test_priority`. -/
def testPriority : List Str := ["low", "medium", "high", "critical"].map Value.key

def storable (s : Str) : Bool := s.all fun c => c.val ≠ 0 ∧ ¬ (0xd800 ≤ c.val ∧ c.val < 0xe000)

def notStr (v : Yaml) : Err := .exception ("expected str, got " ++ v.typeName)

def nullViolation (column : String) : Err :=
  .exception ("null value in column \"" ++ column ++ "\" violates not-null constraint")

def textColumn (v : Yaml) : Except Err (Option Str) :=
  match v with
  | .null => .ok none
  | .str s => if storable s then .ok (some s) else .error (.exception "invalid text")
  | v => .error (notStr v)

def requiredText (column : String) (v : Yaml) : Except Err Str := do
  match ← textColumn v with
  | some s => pure s
  | none => throw (nullViolation column)

def priorityColumn (v : Yaml) : Except Err Str :=
  match v with
  | .null => .error (nullViolation "priority")
  | .str s => if s ∈ testPriority then .ok s else .error (.exception "invalid input value for enum test_priority")
  | v => .error (notStr v)

def Int4 (n : ℤ) : Prop := -2 ^ 31 ≤ n ∧ n < 2 ^ 31

instance (n : ℤ) : Decidable (Int4 n) := inferInstanceAs (Decidable (_ ∧ _))

def integerColumn (n : ℤ) : Except Err ℤ := if Int4 n then .ok n else .error (.exception "value out of int32 range")

def rawColumn (text : List Char) : Except Err (List Char) :=
  if text.all (· ≠ '\x00') then .ok text else .error (.exception "invalid text")

/-- The row that an insertion adds to a table without one of its slug. -/
def insert (sv : Services) (p : Parameters) : Except Err Row := do
  return {
    slug := ← requiredText "slug" p.slug
    name := ← requiredText "name" p.name
    version := ← integerColumn p.version
    tags := ← sv.array p.tags
    component := ← textColumn p.component
    priority := ← priorityColumn p.priority
    timeoutSeconds := ← integerColumn p.timeoutSeconds
    releaseIntroduced := ← textColumn p.releaseIntroduced
    definitionRaw := ← rawColumn p.definitionRaw
    definitionParsed := ← sv.jsonb p.definitionParsed
    minNodeMajorVersion := ← integerColumn (p.minNodeMajorVersion.getD 1)
    category := ← textColumn p.category
    phase := ← textColumn p.phase }

/-! ### What the columns take -/

/-- The value of a cell. -/
def cell : Option Str → Yaml
  | none => .null
  | some s => .str s

def NullableText (v : Yaml) : Prop := ∃ o, v = cell o ∧ ∀ s ∈ o, storable s = true

def RequiredText (v : Yaml) : Prop := ∃ s, v = .str s ∧ storable s = true

theorem textColumn_ok {v : Yaml} {o : Option Str} :
    textColumn v = .ok o ↔ v = cell o ∧ ∀ s ∈ o, storable s = true := by
  constructor
  · intro h
    unfold textColumn at h
    split at h
    next =>
      cases h
      exact ⟨rfl, nofun⟩
    next s =>
      split at h
      next hs =>
        cases h
        refine ⟨rfl, fun t ht => ?_⟩
        cases ht
        exact hs
      next => cases h
    next => cases h
  · rintro ⟨rfl, hs⟩
    cases o with
    | none => rfl
    | some s => exact if_pos (hs s rfl)

theorem requiredText_ok {column : String} {v : Yaml} {s : Str} :
    requiredText column v = .ok s ↔ v = .str s ∧ storable s = true := by
  rw [requiredText, except_bind_ok_iff]
  constructor
  · rintro ⟨o, ho, h⟩
    cases o with
    | none => cases h
    | some t =>
      cases h
      obtain ⟨rfl, hs⟩ := textColumn_ok.mp ho
      exact ⟨rfl, hs _ rfl⟩
  · rintro ⟨rfl, hs⟩
    exact ⟨some s, if_pos hs, rfl⟩

theorem priorityColumn_ok {v : Yaml} {s : Str} : priorityColumn v = .ok s ↔ v = .str s ∧ s ∈ testPriority := by
  constructor
  · intro h
    unfold priorityColumn at h
    split at h
    next => cases h
    next t =>
      split at h
      next ht =>
        cases h
        exact ⟨rfl, ht⟩
      next => cases h
    next => cases h
  · rintro ⟨rfl, hs⟩
    exact if_pos hs

theorem integerColumn_ok {n k : ℤ} : integerColumn n = .ok k ↔ n = k ∧ Int4 k := by
  unfold integerColumn
  split
  next h =>
    constructor
    · intro hk
      cases hk
      exact ⟨rfl, h⟩
    · rintro ⟨rfl, -⟩
      rfl
  next h =>
    refine iff_of_false (by nofun) ?_
    rintro ⟨rfl, hk⟩
    exact h hk

/-- A text without a NUL. -/
def StorableText (text : List Char) : Prop := ∀ c ∈ text, c ≠ '\x00'

theorem rawColumn_ok {text t : List Char} : rawColumn text = .ok t ↔ text = t ∧ StorableText t := by
  unfold rawColumn
  split
  next h =>
    constructor
    · intro ht
      cases ht
      exact ⟨rfl, fun c hc => of_decide_eq_true (List.all_eq_true.mp h c hc)⟩
    · rintro ⟨rfl, -⟩
      rfl
  next h =>
    refine iff_of_false (by nofun) ?_
    rintro ⟨rfl, ht⟩
    exact h (List.all_eq_true.mpr fun c hc => decide_eq_true (ht c hc))

/-- The row holds the parameters. -/
structure Holds (sv : Services) (p : Parameters) (row : Row) : Prop where
  slug : p.slug = .str row.slug ∧ storable row.slug = true
  name : p.name = .str row.name ∧ storable row.name = true
  version : p.version = row.version ∧ Int4 row.version
  tags : sv.array p.tags = .ok row.tags
  component : p.component = cell row.component ∧ ∀ s ∈ row.component, storable s = true
  priority : p.priority = .str row.priority ∧ row.priority ∈ testPriority
  timeoutSeconds : p.timeoutSeconds = row.timeoutSeconds ∧ Int4 row.timeoutSeconds
  releaseIntroduced : p.releaseIntroduced = cell row.releaseIntroduced ∧ ∀ s ∈ row.releaseIntroduced, storable s = true
  definitionRaw : p.definitionRaw = row.definitionRaw ∧ StorableText row.definitionRaw
  definitionParsed : sv.jsonb p.definitionParsed = .ok row.definitionParsed
  minNodeMajorVersion : p.minNodeMajorVersion.getD 1 = row.minNodeMajorVersion ∧ Int4 row.minNodeMajorVersion
  category : p.category = cell row.category ∧ ∀ s ∈ row.category, storable s = true
  phase : p.phase = cell row.phase ∧ ∀ s ∈ row.phase, storable s = true

theorem insert_ok {sv : Services} {p : Parameters} {row : Row} : insert sv p = .ok row ↔ Holds sv p row := by
  simp only [insert, except_bind_ok_iff, textColumn_ok, requiredText_ok, priorityColumn_ok, integerColumn_ok, rawColumn_ok]
  constructor
  · rintro ⟨_, hslug, _, hname, _, hversion, _, htags, _, hcomponent, _, hpriority, _, htimeout, _, hrelease, _, hraw, _,
      hparsed, _, hmin, _, hcategory, _, hphase, h⟩
    cases h
    exact ⟨hslug, hname, hversion, htags, hcomponent, hpriority, htimeout, hrelease, hraw, hparsed, hmin, hcategory, hphase⟩
  · intro h
    exact ⟨_, h.slug, _, h.name, _, h.version, _, h.tags, _, h.component, _, h.priority, _, h.timeoutSeconds, _,
      h.releaseIntroduced, _, h.definitionRaw, _, h.definitionParsed, _, h.minNodeMajorVersion, _, h.category, _, h.phase,
      rfl⟩

end ReleaseValidation.Orchestrator.TestDefinitions
