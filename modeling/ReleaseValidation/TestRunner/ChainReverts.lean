import ReleaseValidation.Foundations.Polls
import ReleaseValidation.TestRunner.NodeReplies

/-! # Chain transactions

`chain_tx` sends an input to the chain, as often as the assertion asks for, and waits for each
receipt. The input count of the node frames the results. An assertion may expect that the
transactions revert.
-/
namespace ReleaseValidation.TestRunner.ChainReverts
open Store Programs Polls

/-- A call for the input count. The node answers with the count of the chain, or the call fails. -/
structure CountCall where
  total : ℕ
  reply : Reply
  truthful : fetchInputCount reply = .ok (.int total) ∨ fetchInputCount reply = .ok (.int (-1))

/-- What `fetch_input_count` returns. -/
def CountCall.count (c : CountCall) : ℤ :=
  match fetchInputCount c.reply with
  | .ok (.int n) => n
  | _ => -1

/-- A question for the receipt of a transaction. -/
structure ReceiptPoll where
  clock : ℚ
  reply : Except String Json

/-- What the submission of one transaction meets. -/
structure Submission where
  send : Except String Json
  deadline : ℚ
  receipts : List ReceiptPoll

structure CountPoll where
  clock : ℚ
  call : CountCall

structure Env where
  expectRevert : Bool
  /-- `int(assertion.get("repeat", 1))`. -/
  repeatArg : ℤ
  payload : String
  appAddress : String
  before : CountCall
  submission : ℕ → Submission
  afterDeadline : ℚ
  after : List CountPoll
  /-- `int(s, 16)`. -/
  int16 : String → Except Err ℤ
  str : Json → String
  repr : Json → String

/-- `max(1, int(repeat))`. -/
def Env.repeats (env : Env) : ℕ := (max 1 env.repeatArg).toNat

def upTo (n : ℕ) (s : String) : String := String.ofList (s.toList.take n)

/-- How the wait for a receipt ends: with its status and the text shown of the hash, or with the time. -/
inductive Waited
  | mined (status : ℤ) (shownHash : Json)
  | timedOut (hash : Json)

section Submitting
variable (env : Env)

/-- `eth_sendTransaction`. -/
def sendTransaction (s : Submission) : Except Err Json := do
  let body ← s.send.mapError .exception
  if ← body.has "error" then do
    let e ← body.item "error"
    .error (.exception ("eth_sendTransaction error: " ++ env.str e))
  else do
    let hash ← body.get "result" .null
    if hash.truthy then pure hash else .error (.exception ("No tx hash returned: " ++ env.str body))

def readReceipt (hash receipt : Json) : Except Err Waited := do
  let status ← receipt.get "status" (.str "0x0")
  let n ← status.toInt16 env.int16
  let shown ← hash.upTo 12
  pure (.mined n shown)

def askReceipt (hash : Json) (_ : Unit) (e : ReceiptPoll) : Round Unit (Except Err Waited) :=
  match (do
    let body ← e.reply.mapError .exception
    body.get "result" .null : Except Err Json) with
  | .error err => .leave (.error err)
  | .ok receipt => if receipt.truthy then .leave (readReceipt env hash receipt) else .again ()

def awaitReceipt (s : Submission) : Option (Except Err Waited) :=
  match sendTransaction env s with
  | .error e => some (.error e)
  | .ok hash => poll (fun e => decide (s.deadline ≤ e.clock)) (askReceipt env hash) (fun _ => .ok (.timedOut hash))
      () s.receipts

def failure (detail : String) : AssertionResult := ⟨.str "chain_tx", false, none, none, some detail⟩

def minedResult (status : ℤ) (shownHash : Json) : AssertionResult :=
  ⟨.str "chain_tx", if env.expectRevert then status == 0 else status == 1,
    some (.json (.str (if env.expectRevert then "tx reverted (status=0)" else "tx status=1"))),
    some (.json (.str ("tx status=" ++ toString status))),
    some ("InputBox.addInput(app=" ++ upTo 10 env.appAddress ++ "…, payload=" ++ env.repr (.str env.payload) ++
      ") → tx=" ++ env.str shownHash ++ "… status=" ++ toString status)⟩

def submitted : Except Err Waited → AssertionResult
  | .ok (.mined status shownHash) => minedResult env status shownHash
  | .ok (.timedOut hash) => failure ("Timeout waiting for receipt of " ++ env.str hash)
  | .error e => failure e.text

/-- `_submit_v2`. -/
def submitV2 (s : Submission) : Option AssertionResult := (awaitReceipt env s).map (submitted env)

def failedIteration (i : ℕ) (r : AssertionResult) : AssertionResult :=
  failure ("[" ++ toString (i + 1) ++ "/" ++ toString env.repeats ++ "] " ++ r.detail.getD "None")

/-- The loop over `n` iterations from the `i`-th on: its last result, or the failure that ends it. -/
def submitAll : ℕ → ℕ → AssertionResult → Option (Except AssertionResult AssertionResult)
  | _, 0, last => some (.ok last)
  | i, n + 1, _ =>
    match submitV2 env (env.submission i) with
    | none => none
    | some r => if r.passed then submitAll (i + 1) n r else some (.error (failedIteration env i r))

def summary : AssertionResult :=
  ⟨.str "chain_tx", true, some (.json (.str ("all " ++ toString env.repeats ++ " inputs accepted"))),
    some (.json (.str (toString env.repeats ++ " inputs submitted"))),
    some ("Sent " ++ toString env.repeats ++ "× InputBox.addInput to " ++ upTo 10 env.appAddress ++ "…")⟩

/-- The loop that waits until the node has indexed new inputs. Its state is `after_count`. -/
def awaitCount (before : ℤ) (polls : List CountPoll) : Option ℤ :=
  poll (fun e => decide (env.afterDeadline ≤ e.clock))
    (fun _ e => if before < e.call.count then .leave e.call.count else .again e.call.count) id before polls

/-- `ChainTxExecutor.execute` on a sandbox of version 2. -/
def execute : Option (List AssertionResult) :=
  let before := env.before.count
  match submitAll env 0 env.repeats (failure "no iterations") with
  | none => none
  | some (.error r) => some ((if 0 ≤ before then [countBeforeResult "inputs" before] else []) ++ [r])
  | some (.ok r) =>
    let last := if 1 < env.repeats then summary env else r
    if 0 ≤ before then
      (awaitCount env before env.after).map fun after =>
        [countBeforeResult "inputs" before, last, countAfterResult "inputs" before after true]
    else some [last]

end Submitting

/-! ### Reverts and successes -/

section Judging
variable (env : Env)

/-- The `i`-th transaction is mined with the status. -/
def Mined (i : ℕ) (status : ℤ) : Prop := ∃ shown, awaitReceipt env (env.submission i) = some (.ok (.mined status shown))

def AllReverted : Prop := ∀ i < env.repeats, Mined env i 0

/-- No call meets another input count than the first. -/
def Unchanged : Prop := ∀ e ∈ env.after, e.call.total = env.before.total

structure Judges (results : List AssertionResult) : Prop where
  reverted : AllReverted env → Unchanged env → ∀ r ∈ results, r.passed = true
  succeeded : (∃ i < env.repeats, Mined env i 1) → ∃ r ∈ results, r.passed = false

end Judging

section Results
variable {env : Env} {i n : ℕ} {last r : AssertionResult} {x : Except AssertionResult AssertionResult}

theorem CountCall.count_cases (c : CountCall) : c.count = c.total ∨ c.count = -1 := by
  unfold CountCall.count
  rcases c.truthful with h | h
  · exact Or.inl (by rw [h])
  · exact Or.inr (by rw [h])

/-- A submission passes when its transaction has the expected status. -/
theorem submitV2_passed (h : submitV2 env (env.submission i) = some r) :
    r.passed = true ↔ Mined env i (if env.expectRevert then 0 else 1) := by
  obtain ⟨w, hw, rfl⟩ := Option.map_eq_some_iff.mp h
  unfold Mined
  rw [hw]
  cases w with
  | error e => exact iff_of_false Bool.false_ne_true (by rintro ⟨shown, ⟨⟩⟩)
  | ok w =>
    cases w with
    | timedOut hash => exact iff_of_false Bool.false_ne_true (by rintro ⟨shown, ⟨⟩⟩)
    | mined status shown =>
      cases hexpect : env.expectRevert <;> simp [submitted, minedResult, hexpect]

theorem failedIteration_passed : (failedIteration env i r).passed = false := rfl

/-- The loop goes through just if each submission passes, and then so does its last result. -/
theorem submitAll_ok (h : submitAll env i n last = some (.ok r)) :
    (∀ j, i ≤ j → j < i + n → Mined env j (if env.expectRevert then 0 else 1)) ∧ (0 < n → r.passed = true) := by
  induction n generalizing i last with
  | zero => exact ⟨fun j hij hj => absurd hij (by omega), fun h0 => absurd h0 (lt_irrefl 0)⟩
  | succ n ih =>
    rw [submitAll] at h
    cases hs : submitV2 env (env.submission i) with
    | none =>
      rw [hs] at h
      cases h
    | some r' =>
      simp only [hs] at h
      split at h
      next hpassed =>
        obtain ⟨hall, hlast⟩ := ih h
        constructor
        · intro j hij hj
          rcases hij.eq_or_lt with rfl | hlt
          · exact (submitV2_passed hs).mp hpassed
          · exact hall j hlt (by omega)
        · intro _
          cases n with
          | zero =>
            cases h
            exact hpassed
          | succ n => exact hlast n.succ_pos
      next => cases h

/-- A failure of the loop is that of a submission without the expected status. -/
theorem submitAll_error (h : submitAll env i n last = some (.error r)) :
    r.passed = false ∧ ∃ j, i ≤ j ∧ j < i + n ∧ ¬ Mined env j (if env.expectRevert then 0 else 1) := by
  induction n generalizing i last with
  | zero => cases h
  | succ n ih =>
    rw [submitAll] at h
    cases hs : submitV2 env (env.submission i) with
    | none =>
      rw [hs] at h
      cases h
    | some r' =>
      simp only [hs] at h
      split at h
      next =>
        obtain ⟨hfailed, j, hij, hj, hnot⟩ := ih h
        exact ⟨hfailed, j, by omega, by omega, hnot⟩
      next hpassed =>
        cases h
        exact ⟨failedIteration_passed, i, le_rfl, by omega, fun hmined => hpassed ((submitV2_passed hs).mpr hmined)⟩

/-- Counts that do not exceed the one before leave it at most there. -/
theorem awaitCount_le {b s a : ℤ} {polls : List CountPoll} {late : CountPoll → Bool}
    (hpolls : ∀ e ∈ polls, e.call.count ≤ b) (hs : s ≤ b)
    (h : poll late (fun _ e => if b < e.call.count then Round.leave e.call.count else .again e.call.count) id s polls =
      some a) : a ≤ b := by
  induction polls generalizing s with
  | nil => cases h
  | cons e polls ih =>
    obtain ⟨he, hrest⟩ := List.forall_mem_cons.mp hpolls
    rw [poll, if_neg (not_lt.mpr he)] at h
    split at h
    next =>
      cases h
      exact hs
    next => exact ih hrest he h

end Results

section Verdict
variable {env : Env} {results : List AssertionResult}

theorem not_mined_both {i : ℕ} (h0 : Mined env i 0) (h1 : Mined env i 1) : False := by
  obtain ⟨shown, h0⟩ := h0
  obtain ⟨shown', h1⟩ := h1
  cases h0.symm.trans h1

theorem repeats_pos (env : Env) : 0 < env.repeats := by
  unfold Env.repeats
  omega

/-- After unchanged counts the count after is not above the one before. -/
theorem awaitCount_unchanged {after : ℤ} (hun : Unchanged env) (hcounted : 0 ≤ env.before.count)
    (h : awaitCount env env.before.count env.after = some after) : after ≤ env.before.count := by
  have hbefore : env.before.count = env.before.total := by
    rcases env.before.count_cases with hb | hb
    · exact hb
    · omega
  refine awaitCount_le (fun e he => ?_) le_rfl h
  have htotal := hun e he
  rcases e.call.count_cases with hc | hc
  · omega
  · omega

theorem judges_iff (hrevert : env.expectRevert = true) (hrun : execute env = some results) :
    Judges env results ↔ ¬ (AllReverted env ∧ Unchanged env ∧ 0 ≤ env.before.count) := by
  unfold execute at hrun
  cases hsubmit : submitAll env 0 env.repeats (failure "no iterations") with
  | none =>
    rw [hsubmit] at hrun
    cases hrun
  | some x =>
    rw [hsubmit] at hrun
    cases x with
    | error r =>
      obtain ⟨hfailed, j, -, hj, hnot⟩ := submitAll_error hsubmit
      rw [hrevert, if_pos rfl] at hnot
      have hsome : ¬ AllReverted env := fun hall => hnot (hall j (by omega))
      cases hrun
      refine iff_of_true ⟨fun hall => absurd hall hsome, fun _ => ⟨r, ?_, hfailed⟩⟩ fun h => hsome h.1
      exact List.mem_append_right _ (List.mem_singleton.mpr rfl)
    | ok r =>
      obtain ⟨hmined, hpassed⟩ := submitAll_ok hsubmit
      rw [hrevert, if_pos rfl] at hmined
      have hall : AllReverted env := fun i hi => hmined i (Nat.zero_le i) (by omega)
      have hnone : ¬ ∃ i < env.repeats, Mined env i 1 := fun ⟨i, hi, h1⟩ => not_mined_both (hall i hi) h1
      have hlast : (if 1 < env.repeats then summary env else r).passed = true := by
        split
        next => rfl
        next => exact hpassed (repeats_pos env)
      by_cases hcounted : 0 ≤ env.before.count
      · simp only [if_pos hcounted] at hrun
        obtain ⟨after, hafter, rfl⟩ := Option.map_eq_some_iff.mp hrun
        constructor
        · rintro ⟨hreverted, -⟩ ⟨-, hun, -⟩
          have hcount := hreverted hall hun (countAfterResult "inputs" env.before.count after true) (by simp)
          have hle := awaitCount_unchanged hun hcounted hafter
          rcases (countAfterResult_passed "inputs").mp hcount with hlt | ⟨-, hlenient⟩
          · omega
          · cases hlenient
        · intro hnot
          exact ⟨fun _ hun => absurd ⟨hall, hun, hcounted⟩ hnot, fun hex => absurd hex hnone⟩
      · simp only [if_neg hcounted] at hrun
        cases hrun
        refine iff_of_true ⟨fun _ _ q hq => ?_, fun hex => absurd hex hnone⟩ fun h => hcounted h.2.2
        rw [List.mem_singleton.mp hq]
        exact hlast

end Verdict

/-! ### A reverted transaction -/

def countedCall (n : ℕ) : CountCall :=
  ⟨n, .ok (.obj [("result", .obj [("pagination", .obj [("total_count", .int n)])])]), Or.inl rfl⟩

def lostCall (n : ℕ) : CountCall := ⟨n, .error (.exception "timeout"), Or.inr rfl⟩

/-- One transaction that is expected to revert, and does. The chain has three inputs throughout. -/
def revertedEnv (before : CountCall) : Env where
  expectRevert := true
  repeatArg := 1
  payload := "0xdeadbeef"
  appAddress := "0x0000000000000000000000000000000000000001"
  before := before
  submission _ := ⟨.ok (.obj [("result", .str "0xd4")]), 15,
    [⟨1, .ok (.obj [("result", .obj [("status", .str "0x0")])])⟩]⟩
  afterDeadline := 20
  after := [⟨5, countedCall 3⟩, ⟨20, countedCall 3⟩]
  int16 s := if s = "0x0" then .ok 0 else .error (.exception "invalid literal for int() with base 16")
  str _ := ""
  repr _ := ""

def revertedResult : AssertionResult := minedResult (revertedEnv (lostCall 3)) 0 (.str "0xd4")

theorem uncounted_revert_judged : Judges (revertedEnv (lostCall 3)) [revertedResult] := by
  have hrun : execute (revertedEnv (lostCall 3)) = some [revertedResult] := by with_unfolding_all rfl
  refine (judges_iff rfl hrun).mpr fun h => ?_
  exact absurd h.2.2 (by decide)

/-- The transaction reverts, no input is added, and the count after fails. -/
theorem expected_revert_fails : ∃ env results, env.expectRevert = true ∧ execute env = some results ∧
    ¬ Judges env results := by
  refine ⟨revertedEnv (countedCall 3), [countBeforeResult "inputs" 3, revertedResult, countAfterResult "inputs" 3 3 true],
    rfl, by with_unfolding_all rfl, fun h => ?_⟩
  have hall : AllReverted (revertedEnv (countedCall 3)) := by
    intro i _
    exact ⟨.str "0xd4", by with_unfolding_all rfl⟩
  have hun : Unchanged (revertedEnv (countedCall 3)) := by
    intro e he
    rcases List.mem_cons.mp he with rfl | he
    · rfl
    · rw [List.mem_singleton.mp he]
      rfl
  have hpassed := h.reverted hall hun (countAfterResult "inputs" 3 3 true) (by simp)
  exact absurd hpassed (by decide)

end ReleaseValidation.TestRunner.ChainReverts
