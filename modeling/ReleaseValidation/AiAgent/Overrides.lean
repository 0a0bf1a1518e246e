import Mathlib.Data.List.Basic
import ReleaseValidation.Foundations.Splits
import ReleaseValidation.Store.Positions
import ReleaseValidation.TestRunner.Definitions

/-! # Parameter overrides of an AI session

`_apply_overrides` copies the parsed definition and writes the overrides into the assertions of
the copy, one after another, each at the place that its key has among the assertions as they
are by then. A key without a place raises. A definition and its copy are two objects; nothing
in a decoded definition is shared.
-/
namespace ReleaseValidation.AiAgent.TestTrigger
open Store Programs TestRunner

/-- The objects by their references. -/
abbrev Objects := List Json

def load (r : ℕ) : Program Objects Err Json := Program.read fun o => o.getD r .null
def store (r : ℕ) (j : Json) : Program Objects Err Unit := Program.write fun o => o.set r j

/-- `copy.deepcopy`. -/
def deepcopy (r : ℕ) : Program Objects Err ℕ := fun o => (.returned o.length, o ++ [o.getD r .null])

section Source
variable (int : String → Option ℤ) (repr : String → String)

def badIndex (key : String) : Err := .exception ("override path " ++ repr key ++ ": index must be an integer")

def noAssertion (key : String) (idx : ℤ) : Err :=
  .exception ("override path " ++ repr key ++ ": no assertion at index " ++ toString idx)

def noLeaf (key : String) : Err :=
  .exception ("override " ++ repr key ++ " matches no assertion leaf; use a path form 'assertions.<N>." ++ key ++
    "' or check the key name")

def ambiguous (key : String) (n : ℕ) : Err :=
  .exception ("override " ++ repr key ++ " is ambiguous: " ++ toString n ++
    " assertions have it. Use a path form 'assertions.<N>." ++ key ++ "' to target one.")

/-- A key `assertions.<idx>.<leaf>`. -/
def placePath (assertions : Json) (key idx leaf : String) : Except Err (ℕ × String) :=
  match int idx with
  | none => .error (badIndex repr key)
  | some i =>
    if i < 0 then .error (noAssertion repr key i)
    else do
      let n ← assertions.len
      if i.toNat < n then
        match assertions with
        | .arr items =>
          match items[i.toNat]? with
          | some (.obj _) => .ok (i.toNat, leaf)
          | _ => .error (noAssertion repr key i)
        | .obj _ => .error (.exception (toString i))
        | _ => .error (noAssertion repr key i)
      else .error (noAssertion repr key i)

def placeBare (assertions : Json) (key : String) : Except Err (ℕ × String) := do
  let items ← assertions.elements
  match Overrides.owners key items with
  | [] => .error (noLeaf repr key)
  | [i] => .ok (i, key)
  | is => .error (ambiguous repr key is.length)

/-- The index of the assertion and the leaf that the key names. -/
def place (assertions : Json) (key : String) : Except Err (ℕ × String) :=
  match Overrides.path key with
  | some (idx, leaf) => placePath int repr assertions key idx leaf
  | none => placeBare repr assertions key

/-- `assertions[i][leaf] = value`, in the definition that holds the assertions. -/
def assign (i : ℕ) (leaf : String) (value : Json) : Json → Json
  | .obj fields =>
    match fields.lookup "assertions" with
    | some (.arr items) => .obj (setField "assertions" (.arr (items.modify i (Overrides.setLeaf leaf value))) fields)
    | _ => .obj fields
  | j => j

/-- The body of the loop. An empty list of assertions is not in the definition, but no key has a place in it. -/
def applyOne (out : ℕ) (override : String × Json) : Program Objects Err Unit := do
  let definition ← load out
  let assertions ← Program.ofExcept (definition.get "assertions" .null)
  let at_ ← Program.ofExcept (place int repr (assertions.orElse (.arr [])) override.1)
  store out (assign at_.1 at_.2 override.2 definition)

def applyAll (out : ℕ) : List (String × Json) → Program Objects Err Unit
  | [] => pure ()
  | override :: overrides => do
    applyOne int repr out override
    applyAll out overrides

/-- `_apply_overrides`, from the reference of the definition to that of the result. -/
def applyOverrides (definitionParsed : ℕ) (overrides : List (String × Json)) : Program Objects Err ℕ :=
  if overrides.isEmpty then pure definitionParsed
  else do
    let out ← deepcopy definitionParsed
    applyAll int repr out overrides
    pure out

end Source

/-! ### Where a key has its place -/

def ObjectAt (items : List Json) (i : ℕ) : Prop := ∃ fields, items[i]? = some (.obj fields)

/-- The assertion at `i` has the leaf. -/
def HasLeaf (items : List Json) (i : ℕ) (leaf : String) : Prop := (items[i]?.map (Json.owns leaf)).getD false = true

/-- A path names the leaf of an assertion that is an object, a bare key that of the one that owns it. -/
def Places (int : String → Option ℤ) (items : List Json) (key : String) (i : ℕ) (leaf : String) : Prop :=
  (∃ idx, Overrides.path key = some (idx, leaf) ∧ int idx = some (i : ℤ) ∧ ObjectAt items i) ∨
    Overrides.path key = none ∧ leaf = key ∧ Overrides.owners key items = [i]

theorem hasLeaf_iff {items : List Json} {i : ℕ} {leaf : String} :
    HasLeaf items i leaf ↔ ∃ fields, items[i]? = some (.obj fields) ∧ (fields.lookup leaf).isSome = true := by
  unfold HasLeaf
  cases h : items[i]? with
  | none => simp
  | some j => cases j <;> simp [Json.owns]

theorem mem_owners {items : List Json} {key : String} {i : ℕ} :
    i ∈ Overrides.owners key items ↔ key ≠ "type" ∧ HasLeaf items i key := by
  unfold Overrides.owners
  split
  next h => simp [h]
  next h =>
    rw [List.mem_filter, List.mem_range]
    refine ⟨fun hi => ⟨h, hi.2⟩, fun hi => ⟨?_, hi.2⟩⟩
    obtain ⟨fields, hfields, -⟩ := hasLeaf_iff.mp hi.2
    exact (List.getElem?_eq_some_iff.mp hfields).1

/-- Nothing but a list of objects has a leaf. -/
theorem owners_of_strings {items : List Json} (h : ∀ j ∈ items, ∃ s, j = .str s) (key : String) :
    Overrides.owners key items = [] := by
  rw [List.eq_nil_iff_forall_not_mem]
  intro i hi
  obtain ⟨fields, hfields, -⟩ := hasLeaf_iff.mp (mem_owners.mp hi).2
  obtain ⟨s, hs⟩ := h _ (List.mem_of_getElem? hfields)
  cases hs

theorem Places.objectAt {int : String → Option ℤ} {items : List Json} {key leaf : String} {i : ℕ}
    (h : Places int items key i leaf) : ObjectAt items i := by
  rcases h with ⟨idx, -, -, hobject⟩ | ⟨-, -, howners⟩
  · exact hobject
  · have hmem : i ∈ Overrides.owners key items := by
      rw [howners]
      exact List.mem_singleton_self i
    obtain ⟨fields, hfields, -⟩ := hasLeaf_iff.mp (mem_owners.mp hmem).2
    exact ⟨fields, hfields⟩

section Place
variable {int : String → Option ℤ} {repr : String → String}

theorem placePath_ok {assertions : Json} {key idx leaf l : String} {i : ℕ} :
    placePath int repr assertions key idx leaf = .ok (i, l) ↔
      ∃ items, assertions = .arr items ∧ l = leaf ∧ int idx = some (i : ℤ) ∧ ObjectAt items i := by
  constructor
  · intro h
    unfold placePath at h
    split at h
    next => cases h
    next n hn =>
      split at h
      next => cases h
      next hpos =>
        have hbody := except_bind_ok h
        clear h
        obtain ⟨len, -, h⟩ := hbody
        split at h
        next =>
          split at h
          next items =>
            split at h
            next fields hfields =>
              cases h
              exact ⟨items, rfl, rfl, by rw [hn, Int.toNat_of_nonneg (Int.not_lt.mp hpos)], fields, hfields⟩
            next => cases h
          next => cases h
          next => cases h
        next => cases h
  · rintro ⟨items, rfl, rfl, hint, fields, hfields⟩
    have hlt : i < items.length := (List.getElem?_eq_some_iff.mp hfields).1
    have hpos : ¬ (i : ℤ) < 0 := Int.not_lt.mpr (Int.natCast_nonneg i)
    simp only [placePath, hint, if_neg hpos]
    refine except_bind_ok_iff.mpr ⟨items.length, rfl, ?_⟩
    simp only [Int.toNat_natCast, if_pos hlt, hfields]

theorem placeBare_ok {assertions : Json} {key l : String} {i : ℕ} :
    placeBare repr assertions key = .ok (i, l) ↔
      ∃ items, assertions = .arr items ∧ l = key ∧ Overrides.owners key items = [i] := by
  unfold placeBare
  rw [except_bind_ok_iff]
  constructor
  · rintro ⟨items, hitems, h⟩
    split at h
    next => cases h
    next j howners =>
      cases h
      have hstrings : (∀ j ∈ items, ∃ s, j = .str s) → False := by
        intro hall
        rw [owners_of_strings hall] at howners
        cases howners
      cases assertions with
      | arr items' =>
        cases hitems
        exact ⟨items, rfl, rfl, howners⟩
      | obj fields =>
        cases hitems
        refine (hstrings fun j hj => ?_).elim
        obtain ⟨kv, -, rfl⟩ := List.mem_map.mp hj
        exact ⟨kv.1, rfl⟩
      | str s =>
        cases hitems
        refine (hstrings fun j hj => ?_).elim
        obtain ⟨c, -, rfl⟩ := List.mem_map.mp hj
        exact ⟨c.toString, rfl⟩
      | null | bool | int | float => cases hitems
    next => cases h
  · rintro ⟨items, rfl, rfl, howners⟩
    exact ⟨items, rfl, by rw [howners]⟩

theorem place_ok_iff {assertions : Json} {key leaf : String} {i : ℕ} :
    place int repr assertions key = .ok (i, leaf) ↔ ∃ items, assertions = .arr items ∧ Places int items key i leaf := by
  unfold Places place
  cases hpath : Overrides.path key with
  | none => simp [placeBare_ok]
  | some p =>
    obtain ⟨idx, l⟩ := p
    rw [placePath_ok]
    simp only [Option.some.injEq, Prod.mk.injEq, reduceCtorEq, false_and, or_false]
    constructor
    · rintro ⟨items, rfl, rfl, hint, hobject⟩
      exact ⟨items, rfl, idx, ⟨rfl, rfl⟩, hint, hobject⟩
    · rintro ⟨items, rfl, idx', ⟨rfl, rfl⟩, hint, hobject⟩
      exact ⟨items, rfl, rfl, hint, hobject⟩

end Place

/-! ### What a run writes -/

theorem setField_setField (k : String) (v w : Json) (fields : List (String × Json)) :
    setField k v (setField k w fields) = setField k v fields := by
  induction fields with
  | nil => simp [setField]
  | cons kv fields ih =>
    obtain ⟨k', v'⟩ := kv
    by_cases hk : k' = k
    · simp [setField, hk]
    · simp [setField, hk, ih]

/-- The overrides have places one after another, and lead from the assertions to `out`. -/
inductive Writes (int : String → Option ℤ) : List Json → List (String × Json) → List Json → Prop
  | done (items) : Writes int items [] items
  | write {items key value i leaf overrides out} : Places int items key i leaf →
      Writes int (items.modify i (Overrides.setLeaf leaf value)) overrides out →
      Writes int items ((key, value) :: overrides) out

section Runs
variable {int : String → Option ℤ} {repr : String → String} {base o : Objects} {d : Json}

theorem load_last : load base.length (base ++ [d]) = (.returned d, base ++ [d]) := by
  simp [load]

theorem store_last (d' : Json) : store base.length d' (base ++ [d]) = (.returned (), base ++ [d']) := by
  simp [store]

/-- One override returns when its key has a place among the assertions that the object has. -/
theorem applyOne_returned_iff {override : String × Json} :
    applyOne int repr base.length override (base ++ [d]) = (.returned (), o) ↔
      ∃ fields items i leaf, d = .obj fields ∧ fields.lookup "assertions" = some (.arr items) ∧
        Places int items override.1 i leaf ∧
        o = base ++ [.obj (setField "assertions" (.arr (items.modify i (Overrides.setLeaf leaf override.2))) fields)] := by
  have hrun : applyOne int repr base.length override (base ++ [d]) = (.returned (), o) ↔
      ∃ assertions i leaf, d.get "assertions" .null = .ok assertions ∧
        place int repr (assertions.orElse (.arr [])) override.1 = .ok (i, leaf) ∧
        o = base ++ [assign i leaf override.2 d] := by
    unfold applyOne
    rw [Program.bind_returned load_last, Program.bind_returned_iff]
    simp only [Program.ofExcept_returned_iff, Program.bind_returned_iff]
    constructor
    · rintro ⟨assertions, _, ⟨hget, rfl⟩, ⟨i, leaf⟩, _, ⟨hplace, rfl⟩, hstore⟩
      rw [store_last] at hstore
      exact ⟨assertions, i, leaf, hget, hplace, (Prod.mk.inj hstore).2.symm⟩
    · rintro ⟨assertions, i, leaf, hget, hplace, rfl⟩
      exact ⟨assertions, _, ⟨hget, rfl⟩, (i, leaf), _, ⟨hplace, rfl⟩, store_last _⟩
  rw [hrun]
  constructor
  · rintro ⟨assertions, i, leaf, hget, hplace, rfl⟩
    obtain ⟨items, hitems, hplaces⟩ := place_ok_iff.mp hplace
    obtain ⟨f, hobject⟩ := hplaces.objectAt
    have hassertions : assertions = .arr items := by
      unfold Json.orElse at hitems
      split at hitems
      next => exact hitems
      next =>
        cases hitems
        cases hobject
    cases d with
    | obj fields =>
      have hlookup : fields.lookup "assertions" = some (.arr items) := by
        have hget : (fields.lookup "assertions").getD .null = assertions := Except.ok.inj hget
        cases hl : fields.lookup "assertions" with
        | none =>
          rw [hl, hassertions] at hget
          cases hget
        | some j =>
          rw [hl, hassertions] at hget
          exact congrArg some hget
      exact ⟨fields, items, i, leaf, rfl, hlookup, hplaces, by simp [assign, hlookup]⟩
    | null | bool | int | float | str | arr => cases hget
  · rintro ⟨fields, items, i, leaf, rfl, hlookup, hplaces, rfl⟩
    refine ⟨.arr items, i, leaf, by simp [Json.get, hlookup], place_ok_iff.mpr ⟨items, ?_, hplaces⟩, ?_⟩
    · cases items with
      | nil => rfl
      | cons j items => rfl
    · simp [assign, hlookup]

theorem applyAll_returned_iff {fields : List (String × Json)} {items : List Json}
    {overrides : List (String × Json)} :
    applyAll int repr base.length overrides (base ++ [.obj (setField "assertions" (.arr items) fields)]) =
        (.returned (), o) ↔
      ∃ out, Writes int items overrides out ∧ o = base ++ [.obj (setField "assertions" (.arr out) fields)] := by
  have hset : ∀ items, (setField "assertions" (.arr items) fields).lookup "assertions" = some (.arr items) :=
    fun items => (lookup_setField _ _ _ _).trans (if_pos rfl)
  induction overrides generalizing items with
  | nil =>
    constructor
    · intro h
      exact ⟨items, .done items, (Prod.mk.inj h).2.symm⟩
    · rintro ⟨out, hwrites, rfl⟩
      cases hwrites
      rfl
  | cons override overrides ih =>
    rw [applyAll, Program.bind_returned_iff]
    constructor
    · rintro ⟨_, t, hone, hrest⟩
      obtain ⟨fields', items', i, leaf, hd, hlookup, hplaces, rfl⟩ := applyOne_returned_iff.mp hone
      cases hd
      cases (hset items).symm.trans hlookup
      rw [setField_setField] at hrest
      obtain ⟨out, hwrites, rfl⟩ := ih.mp hrest
      exact ⟨out, .write hplaces hwrites, rfl⟩
    · rintro ⟨out, hwrites, rfl⟩
      cases hwrites with
      | write hplaces hrest =>
        refine ⟨(), _, applyOne_returned_iff.mpr ⟨_, items, _, _, rfl, hset items, hplaces, rfl⟩, ?_⟩
        rw [setField_setField]
        exact ih.mpr ⟨out, hrest, rfl⟩

/-- The overrides are accepted when they have places one after another, and what they lead to is in a new
object. -/
theorem applyOverrides_returned_iff {overrides : List (String × Json)} (hne : overrides ≠ []) {r r' : ℕ} :
    applyOverrides int repr r overrides base = (.returned r', o) ↔
      ∃ fields items out, base.getD r .null = .obj fields ∧ fields.lookup "assertions" = some (.arr items) ∧
        Writes int items overrides out ∧ r' = base.length ∧
          o = base ++ [.obj (setField "assertions" (.arr out) fields)] := by
  obtain ⟨override, rest, rfl⟩ := List.exists_cons_of_ne_nil hne
  have hcopy : deepcopy r base = (.returned base.length, base ++ [base.getD r .null]) := rfl
  have hsome : ¬ (override :: rest).isEmpty = true := by simp
  rw [applyOverrides, if_neg hsome, Program.bind_returned hcopy, Program.bind_returned_iff]
  constructor
  · rintro ⟨_, t, hall, hend⟩
    cases hend
    rw [applyAll, Program.bind_returned_iff] at hall
    obtain ⟨_, u, hone, hrest⟩ := hall
    obtain ⟨fields, items, i, leaf, hd, hlookup, hplaces, rfl⟩ := applyOne_returned_iff.mp hone
    obtain ⟨out, hwrites, rfl⟩ := applyAll_returned_iff.mp hrest
    exact ⟨fields, items, out, hd, hlookup, .write hplaces hwrites, rfl, rfl⟩
  · rintro ⟨fields, items, out, hd, hlookup, hwrites, rfl, rfl⟩
    refine ⟨(), _, ?_, rfl⟩
    cases hwrites with
    | write hplaces hrest =>
      rw [applyAll, Program.bind_returned_iff]
      exact ⟨(), _, applyOne_returned_iff.mpr ⟨fields, items, _, _, hd, hlookup, hplaces, rfl⟩,
        applyAll_returned_iff.mpr ⟨out, hrest, rfl⟩⟩

end Runs
end ReleaseValidation.AiAgent.TestTrigger
