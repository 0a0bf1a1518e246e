import Mathlib.Algebra.Order.Ring.Rat
import ReleaseValidation.Foundations.Polls
import ReleaseValidation.TestRunner.NodeReplies

/-! # Count assertions on JSON-RPC lists

A `json_rpc` assertion with an expected count compares it with the length of the list that the
first call returned. While the comparison fails the call is repeated, until a JSON-RPC error or the
deadline. The verdict is that of the last list, and of the count after against the count before.
-/
namespace ReleaseValidation.TestRunner.JsonRpcCounts
open Store Programs Programs.Program Polls

/-- `expect_count` or `expect_count_exact`, which takes precedence. -/
inductive Expectation
  | atLeast (expectCount : Json)
  | exactly (expectCountExact : Json)

def number (j : Json) : Option ℚ :=
  match j.scalar with
  | .ok (.num x) => some x
  | _ => none

namespace Expectation

/-- `_check`. -/
def check : Expectation → ℕ → Except Err Bool
  | atLeast j, n =>
    match number j with
    | some x => .ok (decide (x ≤ n))
    | none => .error (.exception ("'>=' not supported between instances of 'int' and '" ++ j.typeName ++ "'"))
  | exactly j, n =>
    match number j with
    | some x => .ok (decide ((n : ℚ) = x))
    | none => .ok false

/-- `exp_str`. -/
def text (str : Json → String) : Expectation → String
  | atLeast j => ">= " ++ str j ++ " items"
  | exactly j => "== " ++ str j ++ " items"

end Expectation

structure Assertion where
  expectation : Expectation
  deadline : ℚ
  method : String
  firstParam : String
  /-- `int(poll_timeout)`. -/
  pollTimeout : ℤ
  /-- `str(j)`. -/
  str : Json → String

/-- A response to a call: a list among the fields of its result, a JSON-RPC error, or a failure of the transport. -/
inductive Response
  | list (items : List Json) (rest : List (String × Json))
  | rpcError (error : Json)
  | failure (text : String)

def listResult (items : List Json) (rest : List (String × Json)) : Json := .obj (("data", .arr items) :: rest)

def Response.reply : Response → Except String Json
  | .list items rest => .ok (.obj [("jsonrpc", .str "2.0"), ("result", listResult items rest), ("id", .int 1)])
  | .rpcError error => .ok (.obj [("jsonrpc", .str "2.0"), ("error", error), ("id", .int 1)])
  | .failure text => .error text

/-- One turn of the loop: it reads the clock, sleeps, and sends the poll. -/
structure Poll where
  clock : ℚ
  sentAt : ℚ
  response : Response

section Checking
variable (x : Assertion)

def resultLength (result : Json) : Except Err ℕ := do
  let data ← result.get "data" (.arr [])
  data.len

/-- The `try` block of one turn. The state is `after_count`; an answer is a `break`. -/
def pollOnce (e : Poll) : Program ℕ Err (Option Unit) := do
  let body ← ofExcept (e.response.reply.mapError .exception)
  if ← ofExcept (body.has "error") then pure (some ())
  else do
    let result ← ofExcept (body.get "result" (.obj []))
    let n ← ofExcept (resultLength result)
    write fun _ => n
    let satisfied ← ofExcept (x.expectation.check n)
    pure (if satisfied then some () else none)

def mainResult (after : ℕ) (passed : Bool) : AssertionResult :=
  ⟨.str "json_rpc", passed, some (.json (.str (x.expectation.text x.str))),
    some (.json (.str (toString after ++ " items"))),
    some (x.method ++ "(" ++ x.firstParam ++ ") — " ++ toString after ++ " item(s) (expected " ++
      x.expectation.text x.str ++ ")" ++ if passed then "" else " — timed out after " ++ toString x.pollTimeout ++ "s")⟩

def report (before after : ℕ) : Except Err Report := do
  let passed ← x.expectation.check after
  pure (.counted x.method before (mainResult x after passed) after false)

/-- `except Exception` of the executor. -/
def guarded : Exit Err Report → Exit Err Report
  | .raised (.exception text) => .returned (.single ⟨.str "json_rpc", false, none, none, some text⟩)
  | r => r

/-- The loop, from the count before. -/
def pollCounts (before : ℕ) (polls : List Poll) : Option (Exit Err Unit × ℕ) :=
  poll (fun e => decide (x.deadline ≤ e.clock)) (attempt (pollOnce x)) (fun n => (.returned (), n)) before polls

/-- The count before, and whether it decides the check. -/
def firstCheck (result : Json) : Except Err (ℕ × Bool) := do
  let before ← resultLength result
  let satisfied ← x.expectation.check before
  pure (before, satisfied)

/-- The count check, on the result of the first call. -/
def countCheck (result : Json) (polls : List Poll) : Option (Exit Err Report) :=
  match firstCheck x result with
  | .error e => some (guarded (.raised e))
  | .ok (before, true) => some (guarded (.ofExcept (report x before before)))
  | .ok (before, false) => (pollCounts x before polls).map fun
    | (.returned (), after) => guarded (.ofExcept (report x before after))
    | (.raised e, _) => guarded (.raised e)
    | (.stopped, _) => .stopped

end Checking

/-! ### The turns -/

section Turns
variable (x : Assertion)

def Satisfied (n : ℕ) : Prop := x.expectation.check n = .ok true

/-- The response ends the loop: an error, or a list of the expected length. -/
def leaves (e : Poll) : Bool :=
  match e.response with
  | .list items _ => holds (x.expectation.check items.length)
  | .rpcError _ => true
  | .failure _ => false

variable {x} {e : Poll} {m n : ℕ} {items : List Json} {rest : List (String × Json)}

theorem holds_iff : holds (x.expectation.check n) = true ↔ Satisfied x n := by
  unfold Satisfied
  cases x.expectation.check n with
  | error err => exact iff_of_false Bool.false_ne_true (by rintro ⟨⟩)
  | ok b => exact ⟨congrArg Except.ok, Except.ok.inj⟩

theorem check_uncancelled (y : Expectation) (n : ℕ) : Uncancelled (y.check n) := by
  cases y with
  | atLeast j =>
    rw [Expectation.check]
    cases number j with
    | none => exact uncancelled_exception _
    | some x => exact uncancelled_ok _
  | exactly j =>
    rw [Expectation.check]
    cases number j with
    | none => exact uncancelled_ok _
    | some x => exact uncancelled_ok _

theorem pollOnce_list (he : e.response = .list items rest) : pollOnce x e m =
    (do
      let satisfied ← ofExcept (x.expectation.check items.length)
      pure (if satisfied then some () else none) : Program ℕ Err (Option Unit)) items.length := by
  unfold pollOnce
  rw [he]
  rfl

theorem attempt_leaves (h : leaves x e = true) (m : ℕ) : attempt (pollOnce x) m e =
    .leave (.returned (), match e.response with | .list items _ => items.length | _ => m) := by
  unfold leaves at h
  refine attempt_leave_iff.mpr ?_
  cases he : e.response with
  | list items rest =>
    rw [he] at h
    rw [pollOnce_list he, holds_iff.mp h]
    rfl
  | rpcError error =>
    unfold pollOnce
    rw [he]
    rfl
  | failure text =>
    rw [he] at h
    cases h

theorem attempt_stays (h : leaves x e = false) (m : ℕ) : attempt (pollOnce x) m e =
    .again (match e.response with | .list items _ => items.length | _ => m) := by
  unfold leaves at h
  refine attempt_again_iff.mpr ?_
  cases he : e.response with
  | list items rest =>
    rw [he] at h
    rw [pollOnce_list he]
    cases hcheck : x.expectation.check items.length with
    | error err =>
      obtain ⟨text, rfl⟩ := (check_uncancelled _ _).exception hcheck
      exact Or.inr ⟨text, rfl⟩
    | ok b =>
      simp only [hcheck, holds] at h
      rw [h]
      exact Or.inl rfl
  | rpcError error =>
    rw [he] at h
    cases h
  | failure text =>
    unfold pollOnce
    rw [he]
    exact Or.inr ⟨text, rfl⟩

end Turns

/-! ### The verdict -/

section Verdict
variable (x : Assertion) (first : List Json) (polls : List Poll)

/-- The polls that the check makes: none after a first list that decides it. -/
def made : List Poll :=
  match x.expectation.check first.length with
  | .ok false => Polls.made (fun e => decide (x.deadline ≤ e.clock)) (leaves x) polls
  | _ => []

/-- A list of the expected length. -/
def Poll.Meets (e : Poll) : Prop := ∃ items rest, e.response = .list items rest ∧ Satisfied x items.length

/-- The first response or a poll made before the deadline returned a list of the expected length. -/
def Met : Prop := Satisfied x first.length ∨ ∃ e ∈ made x first polls, e.Meets x ∧ e.sentAt < x.deadline

/-- A later list of the expected length is at least as long as the first just if it came in time. -/
def InTime : Prop :=
  ∀ e ∈ made x first polls, ∀ items rest, e.response = .list items rest → Satisfied x items.length →
    (first.length ≤ items.length ↔ e.sentAt < x.deadline)

variable {x first polls} {rest : List (String × Json)} {r : Report} {m n : ℕ} {e : Poll}

theorem leaves_of_meets (h : e.Meets x) : leaves x e = true := by
  obtain ⟨items, rest, he, hsatisfied⟩ := h
  rw [leaves, he]
  exact holds_iff.mpr hsatisfied

theorem report_passed (h : guarded (.ofExcept (report x m n)) = .returned r) :
    r.passed = true ↔ Satisfied x n ∧ m ≤ n := by
  unfold Satisfied
  unfold report at h
  cases hcheck : x.expectation.check n with
  | error err =>
    obtain ⟨text, rfl⟩ := (check_uncancelled _ _).exception hcheck
    rw [hcheck] at h
    cases h
    exact iff_of_false Bool.false_ne_true (by rintro ⟨⟨⟩, -⟩)
  | ok passed =>
    rw [hcheck] at h
    cases h
    rw [Report.passed_lenient, mainResult, Except.ok.injEq, Int.ofNat_le]

/-- Before the loop ends, the last list has not met the expectation. -/
theorem rounds_unsatisfied {late : Poll → Bool} (hm : ¬ Satisfied x m)
    (h : rounds late (attempt (pollOnce x)) m polls = some n) : ¬ Satisfied x n := by
  refine rounds_induction (I := fun _ k => ¬ Satisfied x k) hm ?_ h
  intro _ k e u hk _ hround
  cases hleaves : leaves x e with
  | true => cases (attempt_leaves hleaves k).symm.trans hround
  | false =>
    have hu := Round.again.inj ((attempt_stays hleaves k).symm.trans hround)
    rw [← hu]
    unfold leaves at hleaves
    cases he : e.response with
    | list items rest =>
      rw [he] at hleaves
      rw [← holds_iff, Bool.not_eq_true]
      exact hleaves
    | rpcError error => exact hk
    | failure text => exact hk

theorem mem_made_iff : e ∈ made x first polls ↔ x.expectation.check first.length = .ok false ∧
    e ∈ Polls.made (fun e => decide (x.deadline ≤ e.clock)) (leaves x) polls := by
  unfold made
  split
  next h => simp [h]
  next h => exact iff_of_false List.not_mem_nil fun hne => h hne.1

/-- The results all pass after a list of the expected length that is not shorter than the first. -/
theorem pollCounts_passed (hcheck : x.expectation.check first.length = .ok false) {y : Exit Err Unit}
    (hpoll : pollCounts x first.length polls = some (y, n)) (hend : guarded (.ofExcept (report x first.length n)) = .returned r) :
    r.passed = true ↔ ∃ e ∈ made x first polls, ∃ items rest, e.response = .list items rest ∧
      Satisfied x items.length ∧ first.length ≤ items.length := by
  have hleave : ∀ m e, leaves x e = true → ∃ a, attempt (pollOnce x) m e = .leave a :=
    fun m e h => ⟨_, attempt_leaves h m⟩
  have hstay : ∀ m e, leaves x e = false → ∃ u, attempt (pollOnce x) m e = .again u :=
    fun m e h => ⟨_, attempt_stays h m⟩
  have hfirst : ¬ Satisfied x first.length := by
    rw [← holds_iff, hcheck]
    nofun
  rw [report_passed hend]
  simp only [mem_made_iff, hcheck, true_and]
  rcases (poll_eq_some_iff_made hleave hstay).mp hpoll with
    ⟨pre, e, t, hmade, -, hleaves, hrounds, hround⟩ | ⟨t, hnone, hrounds, -, hlate⟩
  · have hmem : e ∈ Polls.made (fun e => decide (x.deadline ≤ e.clock)) (leaves x) polls := by
      rw [hmade]
      exact List.mem_append_right _ (List.mem_singleton.mpr rfl)
    have hafter := Round.leave.inj ((attempt_leaves hleaves t).symm.trans hround)
    cases he : e.response with
    | list items rest =>
      rw [he] at hafter
      cases hafter
      constructor
      · rintro ⟨hsatisfied, hle⟩
        exact ⟨e, hmem, items, rest, he, hsatisfied, hle⟩
      · rintro ⟨d, hd, items', rest', hd', hsatisfied, hle⟩
        have hmeets : leaves x d = true := leaves_of_meets ⟨items', rest', hd', hsatisfied⟩
        obtain rfl := leaving_unique hd hmem hmeets hleaves
        cases he.symm.trans hd'
        exact ⟨hsatisfied, hle⟩
    | rpcError error =>
      rw [he] at hafter
      cases hafter
      refine iff_of_false (fun hlast => rounds_unsatisfied hfirst hrounds hlast.1) ?_
      rintro ⟨d, hd, items', rest', hd', hsatisfied, -⟩
      obtain rfl := leaving_unique hd hmem (leaves_of_meets ⟨items', rest', hd', hsatisfied⟩) hleaves
      cases he.symm.trans hd'
    | failure text =>
      rw [leaves, he] at hleaves
      cases hleaves
  · cases hlate
    refine iff_of_false (fun hlast => rounds_unsatisfied hfirst hrounds hlast.1) ?_
    rintro ⟨d, hd, items', rest', hd', hsatisfied, -⟩
    have hleaves := leaves_of_meets ⟨items', rest', hd', hsatisfied⟩
    rw [hnone d hd] at hleaves
    cases hleaves

theorem pollCounts_returned {y : Exit Err Unit} (hpoll : pollCounts x m polls = some (y, n)) : y = .returned () := by
  obtain ⟨pre, e, post, t, -, -, ⟨-, hlate⟩ | ⟨-, hround⟩⟩ := poll_eq_some_iff.mp hpoll
  · cases hlate
    rfl
  · cases hleaves : leaves x e with
    | true => cases (attempt_leaves hleaves t).symm.trans hround; rfl
    | false => cases (attempt_stays hleaves t).symm.trans hround

theorem firstCheck_list : firstCheck x (listResult first rest) =
    (x.expectation.check first.length >>= fun satisfied => pure (first.length, satisfied)) := rfl

/-- When all results pass. -/
theorem countCheck_passed (hrun : countCheck x (listResult first rest) polls = some (.returned r)) :
    r.passed = true ↔ Satisfied x first.length ∨ ∃ e ∈ made x first polls, ∃ items rest, e.response = .list items rest ∧
      Satisfied x items.length ∧ first.length ≤ items.length := by
  unfold countCheck at hrun
  rw [firstCheck_list] at hrun
  cases hcheck : x.expectation.check first.length with
  | error err =>
    obtain ⟨text, rfl⟩ := (check_uncancelled _ _).exception hcheck
    have hfirst : ¬ Satisfied x first.length := by rw [Satisfied, hcheck]; rintro ⟨⟩
    have hmade : made x first polls = [] := by rw [made, hcheck]
    rw [hcheck] at hrun
    cases hrun
    simp [hfirst, hmade, Report.passed_single]
  | ok satisfied =>
    rw [hcheck] at hrun
    cases satisfied with
    | true =>
      have hpassed := report_passed (Option.some.inj hrun)
      exact iff_of_true (hpassed.mpr ⟨hcheck, le_rfl⟩) (Or.inl hcheck)
    | false =>
      have hfirst : ¬ Satisfied x first.length := by rw [Satisfied, hcheck]; rintro ⟨⟩
      obtain ⟨⟨y, n⟩, hpoll, hend⟩ := Option.map_eq_some_iff.mp hrun
      obtain rfl := pollCounts_returned hpoll
      rw [pollCounts_passed hcheck hpoll hend, or_iff_right hfirst]

/-- A list that is long enough is no shorter than one that was not. -/
theorem atLeast_le {j : Json} (hx : x.expectation = .atLeast j) (hm : x.expectation.check m = .ok false)
    (hn : Satisfied x n) : m ≤ n := by
  unfold Satisfied at hn
  rw [hx, Expectation.check] at hm hn
  cases hj : number j with
  | none =>
    rw [hj] at hm
    cases hm
  | some q =>
    rw [hj] at hm hn
    have hlt : (m : ℚ) < q := Rat.not_le.mp (of_decide_eq_false (Except.ok.inj hm))
    have hle : q ≤ n := of_decide_eq_true (Except.ok.inj hn)
    exact_mod_cast Rat.le_trans (Rat.le_of_lt hlt) hle

end Verdict

/-! ### A list that shrinks -/

def sampleAssertion (y : Expectation) : Assertion where
  expectation := y
  deadline := 60
  method := "cartesi_listInputs"
  firstParam := "app"
  pollTimeout := 60
  str _ := "1"

end ReleaseValidation.TestRunner.JsonRpcCounts
