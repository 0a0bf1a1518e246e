import Mathlib.Data.List.TakeWhile
import ReleaseValidation.TestRunner.Execution
import ReleaseValidation.TestRunner.Interpreter

/-! # Running a definition as it has been parsed

The front matter may give the assertions as any value. `run_test` asks for the length of the value
before the block that turns exceptions into a status, and then runs over its elements: an assertion
adds the entries of its results, or ends the run by an exception or the timeout.
-/
namespace ReleaseValidation.TestRunner.ParsedRuns
open JsonTexts Programs Store Interpreter

/-- `len(v)`. -/
def len : Yaml → Except Err ℕ
  | .seq items => .ok items.length
  | .map members => .ok members.length
  | .str s => .ok s.length
  | .other _ _ _ (some items) => .ok items.length
  | v => .error (.exception ("object of type '" ++ v.typeName ++ "' has no len()"))

/-- An entry of `assertion_results`. -/
inductive Entry
  | unknown (atype : Yaml) (detail : String)
  | result (r : AssertionResult)

def Entry.passed : Entry → Bool
  | unknown _ _ => false
  | result r => r.passed

/-- What ends a run before its last assertion. -/
inductive Stop
  | timeout
  | raised (text : String)

structure Outcome where
  status : TestStatus
  durationMs : ℤ
  assertionResults : List Entry
  errorMessage : Option String

/-- The executors, and what else the run observes. -/
structure Environment where
  /-- The `k`-th assertion of the test. -/
  execute : ℕ → Yaml → Execution
  /-- `assertion.get("type")`, for a value whose members are not shown. -/
  typeOfOther : Yaml → Except Err Yaml
  /-- `str(v)`. -/
  str : Yaml → String
  /-- The exception of `asyncio.timeout(timeout)`, for a value it does not take. -/
  refused : Yaml → Option String
  durationMs : ℤ

section Runs
variable (x : Environment)

/-- `assertion.get("type")`. -/
def typeOf : Yaml → Except Err Yaml
  | .other t b h e => x.typeOfOther (.other t b h e)
  | v => v.get "type" .null

/-- `_EXECUTORS.get(atype)`, `true` if there is one. -/
def hasExecutor (atype : Yaml) : Except Err Bool := atype.isIn (executorTypes.map Value.key)

/-- One iteration of the loop. -/
def runAssertion (k : ℕ) (assertion : Yaml) : Except Stop (List Entry) :=
  match typeOf x assertion with
  | .error e => .error (.raised e.text)
  | .ok atype =>
    match hasExecutor atype with
    | .error e => .error (.raised e.text)
    | .ok false => .ok [.unknown atype ("Unknown assertion type: " ++ x.str atype)]
    | .ok true =>
      match x.execute k assertion with
      | .results items => .ok (items.map Entry.result)
      | .timeout => .error .timeout
      | .raised text => .error (.raised text)

/-- `results` and `overall_status`. -/
structure Progress where
  results : List Entry
  failed : Bool

def Progress.add (p : Progress) (entries : List Entry) : Progress :=
  ⟨p.results ++ entries, p.failed || entries.any fun e => !e.passed⟩

def runAssertions : ℕ → List Yaml → Progress → Progress × Option Stop
  | _, [], p => (p, none)
  | k, a :: as, p =>
    match runAssertion x k a with
    | .ok entries => runAssertions (k + 1) as (p.add entries)
    | .error stop => (p, some stop)

/-- The guarded block. -/
def guarded (assertions timeout : Yaml) : Progress × Option Stop :=
  match x.refused timeout with
  | some text => (⟨[], false⟩, some (.raised text))
  | none =>
    match assertions.elements with
    | .ok items => runAssertions x 0 items ⟨[], false⟩
    | .error e => (⟨[], false⟩, some (.raised e.text))

def conclude (timeout : Yaml) : Progress × Option Stop → TestStatus × Option String
  | (p, none) => (if p.failed then .failed else .passed, none)
  | (_, some .timeout) => (.timeout, some ("Test exceeded timeout of " ++ x.str timeout ++ "s"))
  | (_, some (.raised text)) => (.error, some text)

/-- `run_test` on a definition with these members and this `timeout_seconds`. -/
def runTest (parsed : Members) (timeout : Yaml) : Except Err Outcome := do
  let assertions := parsed.getD "assertions" (.seq [])
  let _ ← len assertions
  let ended := guarded x assertions timeout
  pure ⟨(conclude x timeout ended).1, x.durationMs, ended.1.results, (conclude x timeout ended).2⟩

/-! ### What a run should tell -/

def KnownType (assertion : Yaml) : Prop := ∃ atype, typeOf x assertion = .ok atype ∧ hasExecutor atype = .ok true

/-- How the assertions end, each in its turn. -/
def ends (items : List Yaml) : List (Except Stop (List Entry)) := items.mapIdx fun k a => runAssertion x k a

def entriesOf : Except Stop (List Entry) → Option (List Entry)
  | .ok entries => some entries
  | .error _ => none

/-- The entries of the assertions before the first that does not complete. -/
def entriesBefore (items : List Yaml) : List Entry :=
  ((ends x items).map entriesOf).takeWhile Option.isSome |>.flatMap fun o => o.getD []

/-- The run passes if and only if nothing stops it, every type is known and every entry has passed,
and its entries are those of the assertions before a stop. -/
def Tells (timeout : Yaml) (items : List Yaml) (outcome : Outcome) : Prop :=
  (outcome.status = .passed ↔ x.refused timeout = none ∧
    (∀ k a, items[k]? = some a → ∃ entries, runAssertion x k a = .ok entries) ∧
    (∀ a ∈ items, KnownType x a) ∧ ∀ e ∈ outcome.assertionResults, e.passed = true) ∧
  outcome.assertionResults = if x.refused timeout = none then entriesBefore x items else []

variable {x : Environment} {timeout : Yaml}

theorem add_add (p : Progress) (a b : List Entry) : (p.add a).add b = p.add (a ++ b) := by
  simp only [Progress.add, List.append_assoc, List.any_append, Bool.or_assoc]

theorem add_nil (p : Progress) : p.add [] = p := by
  simp only [Progress.add, List.append_nil, List.any_nil, Bool.or_false]

/-- A loop adds the entries of the assertions before the first that does not complete. -/
theorem runAssertions_entries (k : ℕ) (items : List Yaml) (p : Progress) :
    (runAssertions x k items p).1 = p.add (((items.mapIdx fun i a => runAssertion x (k + i) a).map entriesOf).takeWhile
      Option.isSome |>.flatMap fun o => o.getD []) := by
  induction items generalizing k p with
  | nil => exact (add_nil p).symm
  | cons a items ih =>
    have hshift : (fun i b => runAssertion x (k + (i + 1)) b) = fun i b => runAssertion x (k + 1 + i) b := by
      funext i b
      rw [Nat.add_assoc k 1 i, Nat.add_comm 1 i]
    rw [List.mapIdx_cons, List.map_cons, hshift]
    change Prod.fst (match runAssertion x k a with
      | .ok entries => runAssertions x (k + 1) items (p.add entries)
      | .error stop => (p, some stop)) = _
    cases ha : runAssertion x k a with
    | error stop => exact (add_nil p).symm
    | ok entries =>
      dsimp only [entriesOf]
      rw [List.takeWhile_cons_of_pos rfl, List.flatMap_cons, ih, add_add]
      rfl

/-- It is stopped if and only if one of them does not. -/
theorem runAssertions_stop_iff (k : ℕ) (items : List Yaml) (p : Progress) :
    (runAssertions x k items p).2 = none ↔
      ∀ i a, items[i]? = some a → ∃ entries, runAssertion x (k + i) a = .ok entries := by
  induction items generalizing k p with
  | nil => exact iff_of_true rfl fun i a h => by cases h
  | cons a items ih =>
    change (match runAssertion x k a with
      | .ok entries => runAssertions x (k + 1) items (p.add entries)
      | .error stop => (p, some stop)).2 = none ↔ _
    cases ha : runAssertion x k a with
    | error stop =>
      refine iff_of_false (Option.some_ne_none stop) fun h => ?_
      obtain ⟨entries, hentries⟩ := h 0 a rfl
      cases ha.symm.trans hentries
    | ok entries =>
      rw [ih]
      constructor
      · intro h i b hb
        cases i with
        | zero =>
          cases Option.some.inj hb
          exact ⟨entries, ha⟩
        | succ i =>
          rw [← Nat.add_assoc, Nat.add_right_comm]
          exact h i b hb
      · intro h i b hb
        rw [Nat.add_right_comm]
        exact h (i + 1) b hb

theorem entriesBefore_eq (items : List Yaml) : (runAssertions x 0 items ⟨[], false⟩).1 =
    ⟨entriesBefore x items, (entriesBefore x items).any fun e => !e.passed⟩ := by
  have hzero : (fun i a => runAssertion x (0 + i) a) = fun i a => runAssertion x i a := by
    funext i a
    rw [Nat.zero_add]
  rw [runAssertions_entries, hzero, Progress.add, List.nil_append, Bool.false_or]
  rfl

/-- An entry of an assertion that completes is among those of a run that nothing stops. -/
theorem mem_entriesBefore {items : List Yaml} (h : ∀ k a, items[k]? = some a → ∃ entries, runAssertion x k a = .ok entries)
    {k : ℕ} {a : Yaml} (ha : items[k]? = some a) {entries : List Entry} (hentries : runAssertion x k a = .ok entries)
    {e : Entry} (he : e ∈ entries) : e ∈ entriesBefore x items := by
  have hall : ∀ o ∈ (ends x items).map entriesOf, Option.isSome o = true := by
    intro o ho
    obtain ⟨r, hr, rfl⟩ := List.mem_map.mp ho
    obtain ⟨i, hi, rfl⟩ := List.mem_mapIdx.mp hr
    obtain ⟨entries', hentries'⟩ := h i _ (List.getElem?_eq_getElem hi)
    rw [hentries']
    rfl
  rw [entriesBefore, List.takeWhile_eq_self_iff.mpr hall, List.mem_flatMap]
  obtain ⟨hk, hget⟩ := List.getElem?_eq_some_iff.mp ha
  refine ⟨some entries, List.mem_map.mpr ⟨.ok entries, ?_, rfl⟩, he⟩
  refine List.mem_mapIdx.mpr ⟨k, hk, ?_⟩
  rw [hget]
  exact hentries

/-- An assertion whose type is not known adds an entry that has not passed. -/
theorem known_of_passed {k : ℕ} {a : Yaml} {entries : List Entry} (h : runAssertion x k a = .ok entries)
    (hpassed : ∀ e ∈ entries, e.passed = true) : KnownType x a := by
  unfold runAssertion at h
  split at h
  next => cases h
  next atype htype =>
    split at h
    next => cases h
    next =>
      cases h
      cases hpassed _ List.mem_cons_self
    next hknown => exact ⟨atype, htype, hknown⟩

/-- What the guarded block leaves tells of the assertions. -/
theorem guarded_tells {assertions : Yaml} {items : List Yaml} (h : assertions.elements = .ok items) :
    ((conclude x timeout (guarded x assertions timeout)).1 = .passed ↔ x.refused timeout = none ∧
      (∀ k a, items[k]? = some a → ∃ entries, runAssertion x k a = .ok entries) ∧
      (∀ a ∈ items, KnownType x a) ∧ ∀ e ∈ (guarded x assertions timeout).1.results, e.passed = true) ∧
    (guarded x assertions timeout).1.results = if x.refused timeout = none then entriesBefore x items else [] := by
  unfold guarded
  cases hrefused : x.refused timeout with
  | some text =>
    refine ⟨iff_of_false (fun h => by cases h) (fun h => by cases h.1), ?_⟩
    rw [if_neg (Option.some_ne_none text)]
  | none =>
    have hzero : (∀ i a, items[i]? = some a → ∃ entries, runAssertion x (0 + i) a = .ok entries) ↔
        ∀ i a, items[i]? = some a → ∃ entries, runAssertion x i a = .ok entries := by
      simp only [Nat.zero_add]
    have hstop := (runAssertions_stop_iff (x := x) 0 items ⟨[], false⟩).trans hzero
    have hentries := entriesBefore_eq (x := x) items
    dsimp only
    rw [h, if_pos rfl]
    dsimp only
    cases hrun : runAssertions x 0 items ⟨[], false⟩ with
    | mk p stop =>
      rw [hrun] at hstop hentries
      dsimp only at hstop hentries ⊢
      rw [hentries]
      refine ⟨?_, rfl⟩
      have hall : (entriesBefore x items).any (fun e => !e.passed) = false ↔ ∀ e ∈ entriesBefore x items, e.passed = true := by
        simp
      rw [← hall]
      cases stop with
      | some stop =>
        have hnot := mt hstop.mpr (Option.some_ne_none stop)
        refine iff_of_false (fun hc => ?_) fun hc => hnot hc.2.1
        cases stop <;> cases hc
      | none =>
        have hcomplete := hstop.mp rfl
        rw [and_iff_right rfl, and_iff_right hcomplete]
        change (if (entriesBefore x items).any (fun e => !e.passed) = true then TestStatus.failed else .passed) = .passed ↔ _
        constructor
        · intro hpassed
          split at hpassed
          next => cases hpassed
          next hany =>
            have hfalse := Bool.eq_false_of_not_eq_true hany
            refine ⟨fun a ha => ?_, hfalse⟩
            obtain ⟨k, hk⟩ := List.mem_iff_getElem?.mp ha
            obtain ⟨entries, hrun⟩ := hcomplete k a hk
            exact known_of_passed hrun fun e he => hall.mp hfalse e (mem_entriesBefore hcomplete hk hrun he)
        · rintro ⟨-, hany⟩
          rw [hany]
          rfl

/-- A value has a length if and only if a loop can run over it. -/
theorem len_ok_iff (v : Yaml) : (∃ n, len v = .ok n) ↔ ∃ items, v.elements = .ok items := by
  cases v with
  | other t b h e =>
    cases e with
    | none => exact iff_of_false (fun ⟨n, hn⟩ => by cases hn) fun ⟨items, hi⟩ => by cases hi
    | some items => exact iff_of_true ⟨_, rfl⟩ ⟨_, rfl⟩
  | null | bool b | int n => exact iff_of_false (fun ⟨n, hn⟩ => by cases hn) fun ⟨items, hi⟩ => by cases hi
  | str s => exact iff_of_true ⟨_, rfl⟩ ⟨_, rfl⟩
  | seq items => exact iff_of_true ⟨_, rfl⟩ ⟨_, rfl⟩
  | map members => exact iff_of_true ⟨_, rfl⟩ ⟨_, rfl⟩

end Runs

/-- A loader that knows two documents: with an empty list of assertions, and with nothing for them. -/
def sampleLoad (t : List Char) : Except LoadError Yaml :=
  if t = "id: t\nname: T\nassertions: []".toList then
    .ok (.map [(.text "id", .text "t"), (.text "name", .text "T"), (.text "assertions", .seq [])])
  else if t = "id: t\nname: T\nassertions:".toList then
    .ok (.map [(.text "id", .text "t"), (.text "name", .text "T"), (.text "assertions", .null)])
  else .error ⟨true, "unknown document"⟩

/-- An environment in which nothing is observed but that executors return no results. -/
def idleEnvironment : Environment where
  execute _ _ := .results []
  typeOfOther v := .error (.exception v.typeName)
  str v := v.typeName
  refused _ := none
  durationMs := 0

def parsedSample (assertions : Yaml) : Members :=
  completed [] [(.text "id", .text "t"), (.text "name", .text "T"), (.text "assertions", assertions)]

theorem parse_empty_list :
    parseDefinition sampleLoad "---\nid: t\nname: T\nassertions: []\n---\n".toList = .ok (parsedSample (.seq [])) := by
  refine parseDefinition_ok.mpr ⟨"id: t\nname: T\nassertions: []".toList, [], _, by decide +kernel, rfl, ?_, rfl⟩
  decide +kernel

theorem parse_nothing :
    parseDefinition sampleLoad "---\nid: t\nname: T\nassertions:\n---\n".toList = .ok (parsedSample .null) := by
  refine parseDefinition_ok.mpr ⟨"id: t\nname: T\nassertions:".toList, [], _, by decide +kernel, rfl, ?_, rfl⟩
  decide +kernel

end ReleaseValidation.TestRunner.ParsedRuns
