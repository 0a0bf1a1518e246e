import Mathlib.Data.Int.Order.Basic
import Mathlib.Data.List.Infix
import ReleaseValidation.TestRunner.Execution

/-! # Replies of the node

The executors ask the node by JSON-RPC. A reply is the decoded body, of which nothing is known,
or the error that the request or the decoding raises. The counts that frame a test are read from
such replies, before and after it.
-/
namespace ReleaseValidation.Store
open Programs

/-- `needle in s`. -/
def includes (needle s : String) : Bool := decide (needle.toList <:+: s.toList)

/-- `s.lower()`. Only searches for words of the alphabet read it. -/
def lower (s : String) : String := String.ofList (s.toList.map Char.toLower)

theorem includes_of_eq {needle s t u : String} (h : s = t ++ needle ++ u) : includes needle s = true := by
  refine decide_eq_true ⟨t.toList, u.toList, ?_⟩
  rw [h, String.toList_append, String.toList_append]

theorem lower_append (s t : String) : lower (s ++ t) = lower s ++ lower t := by
  rw [lower, String.toList_append, List.map_append, String.ofList_append]
  rfl

/-- A value that can be hashed, up to the equality of the interpreter. -/
inductive Scalar
  | null
  | num (x : ℚ)
  | str (s : String)
  deriving DecidableEq

namespace Json

/-- `key in j`. -/
def has (key : String) : Json → Except Err Bool
  | obj fields => .ok (fields.lookup key).isSome
  | arr items => .ok (items.any fun
      | str s => s == key
      | _ => false)
  | str s => .ok (includes key s)
  | j => .error (.exception ("argument of type '" ++ j.typeName ++ "' is not iterable"))

def scalar : Json → Except Err Scalar
  | null => .ok .null
  | bool b => .ok (.num (if b then 1 else 0))
  | int n => .ok (.num n)
  | float x => .ok (.num x)
  | str s => .ok (.str s)
  | j => .error (.exception ("unhashable type: '" ++ j.typeName ++ "'"))

/-- `j in names`, for a set of strings. -/
def isOneOf (names : List String) (j : Json) : Except Err Bool := do
  let k ← j.scalar
  pure (names.any fun name => k == .str name)

/-- `j == text`. -/
def isText (text : String) : Json → Bool
  | str s => s == text
  | _ => false

/-- The value as an operand next to an integer. -/
def integer : Json → Except Err ℤ
  | int n => .ok n
  | j => .error (.exception ("'>' not supported between instances of '" ++ j.typeName ++ "' and 'int'"))

/-- `int(j, 16)`, for the conversion of strings. -/
def toInt16 (int16 : String → Except Err ℤ) : Json → Except Err ℤ
  | str s => int16 s
  | _ => .error (.exception "int() can't convert non-string with explicit base")

theorem isText_iff {text : String} {j : Json} : j.isText text = true ↔ j = str text := by
  cases j <;> simp [isText]

theorem isOneOf_str (names : List String) (s : String) :
    (str s).isOneOf names = .ok (names.any fun name => Scalar.str s == .str name) := rfl

theorem isOneOf_iff {names : List String} {j : Json} :
    j.isOneOf names = .ok true ↔ ∃ s ∈ names, j = str s := by
  cases j with
  | str s => simp [isOneOf_str]
  | null => simp [isOneOf, scalar, pure, Except.pure, bind, Except.bind]
  | bool b => simp [isOneOf, scalar, pure, Except.pure, bind, Except.bind]
  | int n => simp [isOneOf, scalar, pure, Except.pure, bind, Except.bind]
  | float x => simp [isOneOf, scalar, pure, Except.pure, bind, Except.bind]
  | arr items => simp [isOneOf, scalar, bind, Except.bind]
  | obj fields => simp [isOneOf, scalar, bind, Except.bind]

end Json
end ReleaseValidation.Store

namespace ReleaseValidation.TestRunner
open Store Programs

abbrev Reply := Except Err Json

/-- `try: x  except Exception: return fallback`. -/
def fallback {α : Type} (a : α) : Except Err α → Except Err α
  | .error (.exception _) => .ok a
  | x => x

/-- `[x for x in items if p(x)]`. -/
def keepIf (p : Json → Except Err Bool) : List Json → Except Err (List Json)
  | [] => .ok []
  | x :: xs => do
    let b ← p x
    let kept ← keepIf p xs
    pure (if b then x :: kept else kept)

/-- The condition holds, and reading it raises nothing. -/
def holds : Except Err Bool → Bool
  | .ok b => b
  | .error _ => false

theorem keepIf_ok_iff {p : Json → Except Err Bool} {xs ys : List Json} :
    keepIf p xs = .ok ys ↔ (∀ x ∈ xs, ∃ b, p x = .ok b) ∧ ys = xs.filter fun x => holds (p x) := by
  induction xs generalizing ys with
  | nil => simp [keepIf, eq_comm]
  | cons x xs ih =>
    rw [keepIf, List.forall_mem_cons, List.filter_cons]
    cases hx : p x with
    | error e => exact iff_of_false (by rintro ⟨⟩) (by rintro ⟨⟨⟨b, hb⟩, -⟩, -⟩; cases hb)
    | ok b =>
      constructor
      · intro h
        obtain ⟨_, ⟨⟩, h⟩ := except_bind_ok h
        obtain ⟨kept, hkept, h⟩ := except_bind_ok h
        obtain ⟨hall, rfl⟩ := ih.mp hkept
        cases h
        exact ⟨⟨⟨b, rfl⟩, hall⟩, rfl⟩
      · rintro ⟨⟨-, hall⟩, rfl⟩
        refine except_bind_ok_iff.mpr ⟨b, rfl, except_bind_ok_iff.mpr ⟨_, ih.mpr ⟨hall, rfl⟩, ?_⟩⟩
        cases b <;> rfl

/-! ### Errors that the handlers see -/

/-- The computation is not cancelled: what it raises, `except Exception` catches. -/
def Uncancelled {α : Type} (x : Except Err α) : Prop := x ≠ .error .cancelled

section Uncancelled
variable {α β : Type} {x : Except Err α} {f : α → Except Err β}

theorem uncancelled_ok (a : α) : Uncancelled (.ok a : Except Err α) := nofun

theorem uncancelled_exception (text : String) : Uncancelled (.error (.exception text) : Except Err α) := nofun

theorem Uncancelled.exception (h : Uncancelled x) {e : Err} (he : x = .error e) : ∃ text, e = .exception text := by
  cases e with
  | exception text => exact ⟨text, rfl⟩
  | cancelled => exact absurd he h

theorem Uncancelled.bind (hx : Uncancelled x) (hf : ∀ a, Uncancelled (f a)) : Uncancelled (x >>= f) := by
  cases x with
  | ok a => exact hf a
  | error e =>
    obtain ⟨text, rfl⟩ := hx.exception rfl
    exact uncancelled_exception text

theorem uncancelled_get (j : Json) (key : String) (default : Json) : Uncancelled (j.get key default) := by
  cases j <;> nofun

theorem uncancelled_has (key : String) (j : Json) : Uncancelled (j.has key) := by
  cases j <;> nofun

theorem uncancelled_elements (j : Json) : Uncancelled j.elements := by
  cases j <;> nofun

theorem uncancelled_upTo (n : ℕ) (j : Json) : Uncancelled (j.upTo n) := by
  cases j <;> nofun

theorem uncancelled_keepIf {p : Json → Except Err Bool} (hp : ∀ x, Uncancelled (p x)) (xs : List Json) :
    Uncancelled (keepIf p xs) := by
  induction xs with
  | nil => exact uncancelled_ok []
  | cons x xs ih => exact (hp x).bind fun b => ih.bind fun kept => uncancelled_ok _

end Uncancelled

/-! ### Counts -/

/-- `pagination.total_count`, or the length of the page where the node gives no total. -/
def countOf (body : Json) : Except Err Json := do
  let result ← body.get "result" (.obj [])
  let pagination ← result.get "pagination" (.obj [])
  if pagination.truthy && (← pagination.has "total_count") then pagination.item "total_count"
  else do
    let data ← result.get "data" (.arr [])
    pure (.int (← data.len))

/-- `_get_output_count`. -/
def getOutputCount (reply : Reply) : Except Err Json := fallback (.int 0) (reply >>= countOf)

/-- `fetch_input_count`. -/
def fetchInputCount (reply : Reply) : Except Err Json := fallback (.int (-1)) (reply >>= countOf)

def countBeforeResult (noun : String) (count : ℤ) : AssertionResult :=
  ⟨.str "count_before", true, none, none, some (noun ++ " before: " ++ toString count)⟩

def countAfterResult (noun : String) (before after : ℤ) (requireIncrease : Bool) : AssertionResult :=
  if before < after then
    ⟨.str "count_after", true, none, none,
      some (noun ++ " after: " ++ toString after ++ " (+" ++ toString (after - before) ++ ")")⟩
  else if after = before then
    ⟨.str "count_after", !requireIncrease, none, none, some (noun ++ " after: " ++ toString after ++ " (no change)")⟩
  else
    ⟨.str "count_after", false, none, none,
      some (noun ++ " after: " ++ toString after ++ " (decreased from " ++ toString before ++ ")")⟩

theorem countAfterResult_passed (noun : String) {before after : ℤ} {requireIncrease : Bool} :
    (countAfterResult noun before after requireIncrease).passed = true ↔
      before < after ∨ after = before ∧ requireIncrease = false := by
  unfold countAfterResult
  split
  next h => simp [h]
  next h =>
    split
    next he => simp [he]
    next he => simp [h, he]

/-- What an executor returns: its result alone, or between those that record the counts before and after. -/
inductive Report
  | single (main : AssertionResult)
  | counted (noun : String) (before : ℤ) (main : AssertionResult) (after : ℤ) (requireIncrease : Bool)

namespace Report

def main : Report → AssertionResult
  | single m => m
  | counted _ _ m _ _ => m

def results : Report → List AssertionResult
  | single m => [m]
  | counted noun before m after requireIncrease =>
    [countBeforeResult noun before, m, countAfterResult noun before after requireIncrease]

/-- No result fails the test. -/
def passed (r : Report) : Bool := r.results.all (·.passed)

theorem passed_single (m : AssertionResult) : (single m).passed = m.passed := Bool.and_true _

theorem passed_counted {noun : String} {before after : ℤ} {m : AssertionResult} {requireIncrease : Bool} :
    (counted noun before m after requireIncrease).passed = true ↔
      m.passed = true ∧ (before < after ∨ after = before ∧ requireIncrease = false) := by
  rw [← countAfterResult_passed noun]
  simp [passed, results, countBeforeResult]

/-- Without a required increase, only a count that falls fails. -/
theorem passed_lenient {noun : String} {before after : ℤ} {m : AssertionResult} :
    (counted noun before m after false).passed = true ↔ m.passed = true ∧ before ≤ after := by
  rw [passed_counted]
  refine and_congr_right fun _ => ⟨?_, ?_⟩
  · rintro (h | ⟨rfl, -⟩)
    · exact h.le
    · exact le_rfl
  · intro h
    rcases h.lt_or_eq with h | rfl
    · exact Or.inl h
    · exact Or.inr ⟨rfl, rfl⟩

end Report
end ReleaseValidation.TestRunner
