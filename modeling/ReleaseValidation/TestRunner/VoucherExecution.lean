import ReleaseValidation.TestRunner.VoucherPolls

/-! # The voucher-execution test

`_execute_voucher` waits for a new voucher of a claimed epoch and runs a script that executes it.
Vouchers that another test has executed already are passed over. The first other end of a script
decides the test.
-/
namespace ReleaseValidation.TestRunner.VoucherExecution
open Store Programs Programs.Program Polls VoucherPolls

/-- What `cast` prints for a mined transaction, among its other fields. -/
structure Receipt where
  succeeded : Bool
  head : String
  middle : String
  tail : String

def Receipt.text (r : Receipt) : String :=
  r.head ++ "status               " ++ (if r.succeeded then "1 (success)" else "0 (failed)") ++ r.middle ++
    "transactionHash" ++ r.tail

/-- A reply to the count of the outputs. The totals of the node are integers. -/
abbrev CountReply := {r : Reply // ∃ n : ℤ, getOutputCount r = .ok (.int n)}

structure Env where
  before : CountReply
  trigger : Except Err Unit
  turns : List Turn
  lastRestart : ℚ
  deadline : ℚ
  /-- How the script of the `k`-th voucher ends. -/
  script : ℕ → Except Err Receipt
  after : CountReply
  appAddress : String
  elapsed : ℤ
  /-- `str(j)`. -/
  str : Json → String

def isText : Json → Bool
  | .str _ => true
  | _ => false

/-- `",".join(j)`, of which only the failure matters here. -/
def join : Json → Except Err Unit
  | .arr items => if items.all isText then .ok () else .error (.exception "sequence item: expected str instance")
  | .obj _ | .str _ => .ok ()
  | _ => .error (.exception "can only join an iterable")

/-- What the script and the results of a voucher are made of. -/
structure Prepared where
  outputIndex : ℤ
  rawStart : Json

def prepare (num : Numerals) (v : Json) : Except Err Prepared := do
  let rawData ← v.get "raw_data" (.str "0x")
  let index ← v.get "index" (.str "0x0")
  let outputIndex ← index.toInt16 num.int16
  let siblings ← v.get "output_hashes_siblings" (.arr [])
  let _ ← rawData.upTo 12
  join siblings
  let rawStart ← rawData.upTo 10
  pure ⟨outputIndex, rawStart⟩

def alreadyExecuted (text : String) : Bool := includes "OutputNotReexecutable" text || includes "AlreadyExecuted" text

def reportsSuccess (output : String) : Bool :=
  includes "status: 1" (lower output) || includes "transactionhash" (lower output)

/-- How the rotation over the vouchers ends. -/
inductive Rotation
  | ran (p : Prepared) (receipt : Receipt)
  | failed (text : String)
  | exhausted (lastDetail : String)

section Rotating
variable (num : Numerals) (script : ℕ → Except Err Receipt)

def rotate : ℕ → List Json → String → Except Err Rotation
  | _, [], lastDetail => .ok (.exhausted lastDetail)
  | k, v :: vs, _ => do
    let p ← prepare num v
    match script k with
    | .ok receipt => pure (.ran p receipt)
    | .error .cancelled => .error .cancelled
    | .error (.exception text) =>
      if alreadyExecuted text then
        rotate (k + 1) vs ("index=" ++ toString p.outputIndex ++ " OutputNotReexecutable")
      else pure (.failed text)

/-- The ends of the scripts that the rotation runs. -/
def tried : ℕ → List Json → List (Except Err Receipt)
  | _, [] => []
  | k, v :: vs =>
    match prepare num v with
    | .error _ => []
    | .ok _ =>
      script k :: match script k with
        | .error (.exception text) => if alreadyExecuted text then tried (k + 1) vs else []
        | _ => []

end Rotating

def failure (detail : String) : AssertionResult := ⟨.str "voucher_v2", false, none, none, some detail⟩

def upTo (n : ℕ) (s : String) : String := String.ofList (s.toList.take n)

def executionResult (env : Env) (p : Prepared) (passed : Bool) : AssertionResult :=
  ⟨.str "voucher_v2", passed, some (.json (.str "executeOutput tx status=1")),
    some (.json (.str (if passed then "output executed on-chain" else "execution failed"))),
    some ("executeOutput(index=" ++ toString p.outputIndex ++ ", raw=" ++ env.str p.rawStart ++ "…) on CartesiDApp " ++
      upTo 10 env.appAddress ++ "… — " ++ if passed then "SUCCESS" else "FAILED")⟩

/-- What the test returns after the rotation. -/
def conclude (env : Env) (before : Json) (vouchers : List Json) : Rotation → Except Err Report
  | .ran p receipt => do
    let after ← getOutputCount env.after
    let b ← before.integer
    let a ← after.integer
    pure (.counted "outputs" b (executionResult env p (reportsSuccess receipt.text)) a false)
  | .failed text => pure (.single (failure ("executeOutput script failed: " ++ upTo 400 text)))
  | .exhausted lastDetail => pure (.single (failure ("All " ++ toString vouchers.length ++
      " voucher(s) already executed (" ++ lastDetail ++ ")")))

/-- What the test makes of the vouchers that the polling returns. -/
def executePolled (num : Numerals) (env : Env) (before : Json) (vouchers : List Json) : Except Err Report :=
  if vouchers.isEmpty then
    .ok (.single (failure ("No vouchers with a claimed epoch found after " ++ toString env.elapsed ++
      "s. Ensure CARTESI_EPOCH_LENGTH is set and the claimer has run.")))
  else do
    let rotation ← rotate num env.script 0 vouchers "no vouchers attempted"
    conclude env before vouchers rotation

/-- `_execute_voucher`. -/
def executeVoucher (num : Numerals) (expectCount : ℤ) (env : Env) : Option (Exit Err Report) :=
  match getOutputCount env.before with
  | .error e => some (.raised e)
  | .ok before =>
    match env.trigger with
    | .error (.exception text) => some (.returned (.single (failure ("Voucher setup failed: " ++ text))))
    | .error .cancelled => some (.raised .cancelled)
    | .ok () =>
      (pollVouchers num ⟨expectCount, before, true, env.deadline⟩ env.turns env.lastRestart).map fun
        | (.returned vouchers, _) => Exit.ofExcept (executePolled num env before vouchers)
        | (.raised e, _) => .raised e
        | (.stopped, _) => .stopped

/-! ### Which ends pass -/

theorem reportsSuccess_text (r : Receipt) : reportsSuccess r.text = true := by
  have hhash : lower "transactionHash" = "transactionhash" := rfl
  have htext : lower r.text = lower (r.head ++ "status               " ++
      (if r.succeeded then "1 (success)" else "0 (failed)") ++ r.middle) ++ "transactionhash" ++ lower r.tail := by
    rw [Receipt.text, lower_append, lower_append _ "transactionHash", hhash]
  rw [reportsSuccess, includes_of_eq htext, Bool.or_true]

section Rotations
variable {num : Numerals} {script : ℕ → Except Err Receipt} {k : ℕ} {vs : List Json}

theorem rotate_ran_iff (d : String) : (∃ p receipt, rotate num script k vs d = .ok (.ran p receipt)) ↔
    ∃ receipt, Except.ok receipt ∈ tried num script k vs := by
  induction vs generalizing k d with
  | nil => simp [rotate, tried]
  | cons v vs ih =>
    rw [rotate, tried]
    cases hp : prepare num v with
    | error e => simp [bind, Except.bind]
    | ok p =>
      change (∃ q receipt, (match script k with
        | .ok receipt => pure (.ran p receipt)
        | .error .cancelled => .error .cancelled
        | .error (.exception text) => if alreadyExecuted text then rotate num script (k + 1) vs _ else pure (.failed text))
          = Except.ok (Rotation.ran q receipt)) ↔ _
      cases hs : script k with
      | ok receipt => exact ⟨fun _ => ⟨receipt, List.mem_cons_self⟩, fun _ => ⟨p, receipt, rfl⟩⟩
      | error e =>
        cases e with
        | cancelled => simp
        | exception text =>
          cases hskip : alreadyExecuted text with
          | false => simp [hskip, pure, Except.pure]
          | true => simpa [hskip] using ih _

/-- The rotation stops at the first receipt. -/
theorem tried_unique {r r' : Receipt} (h : Except.ok r ∈ tried num script k vs)
    (h' : Except.ok r' ∈ tried num script k vs) : r = r' := by
  induction vs generalizing k with
  | nil => cases h
  | cons v vs ih =>
    rw [tried] at h h'
    cases hp : prepare num v with
    | error e =>
      rw [hp] at h
      cases h
    | ok p =>
      rw [hp] at h h'
      cases hs : script k with
      | ok receipt =>
        simp only [hs, List.mem_singleton, Except.ok.injEq] at h h'
        rw [h, h']
      | error e =>
        cases e with
        | cancelled => simp [hs] at h
        | exception text =>
          cases hskip : alreadyExecuted text with
          | false => simp [hs, hskip] at h
          | true =>
            simp only [hs, hskip, if_true, List.mem_cons, reduceCtorEq, false_or] at h h'
            exact ih h h'

end Rotations

namespace CountReply

def count (r : CountReply) : ℤ :=
  match getOutputCount r.val with
  | .ok (.int n) => n
  | _ => 0

theorem getOutputCount_val (r : CountReply) : getOutputCount r.val = .ok (.int r.count) := by
  obtain ⟨n, hn⟩ := r.property
  rw [count, hn]

end CountReply

section Judgement
variable (num : Numerals) (expectCount : ℤ) (env : Env)

def polled : Option (Exit Err (List Json) × Memory) :=
  pollVouchers num ⟨expectCount, .int (CountReply.count env.before), true, env.deadline⟩ env.turns env.lastRestart

/-- The ends of the scripts that the test runs. -/
def triedIn : List (Except Err Receipt) :=
  match env.trigger, polled num expectCount env with
  | .ok (), some (.returned vouchers, _) => tried num env.script 0 vouchers
  | _, _ => []

/-- A voucher that the test tried was executed by a transaction of status 1. -/
def Executed : Prop := ∃ r, Except.ok r ∈ triedIn num expectCount env ∧ r.succeeded = true

/-- No transaction of a voucher that the test tried was mined with status 0. -/
def NoneReverted : Prop := ∀ r, Except.ok r ∈ triedIn num expectCount env → r.succeeded = true

def Passed (x : Exit Err Report) : Prop := ∃ r, x = .returned r ∧ r.main.passed = true

variable {num expectCount env}

theorem not_passed_raised (e : Err) : ¬ Passed (.raised e) := by
  rintro ⟨r, hr, -⟩
  cases hr

theorem not_passed_failure (detail : String) : ¬ Passed (.returned (.single (failure detail))) := by
  rintro ⟨r, hr, hpassed⟩
  cases hr
  cases hpassed

/-- A rotation that runs a script to its receipt passes, whatever the status is. -/
theorem conclude_passed (n : ℤ) (vouchers : List Json) (rotation : Rotation) :
    Passed (.ofExcept (conclude env (.int n) vouchers rotation)) ↔ ∃ p receipt, rotation = .ran p receipt := by
  cases rotation with
  | ran p receipt =>
    rw [conclude, CountReply.getOutputCount_val, reportsSuccess_text]
    exact iff_of_true ⟨.counted "outputs" n (executionResult env p true) (CountReply.count env.after) false, rfl, rfl⟩
      ⟨p, receipt, rfl⟩
  | failed text => exact iff_of_false (not_passed_failure _) (by rintro ⟨p, receipt, he⟩; cases he)
  | exhausted lastDetail => exact iff_of_false (not_passed_failure _) (by rintro ⟨p, receipt, he⟩; cases he)

theorem executePolled_passed (n : ℤ) (vouchers : List Json) :
    Passed (.ofExcept (executePolled num env (.int n) vouchers)) ↔
      ∃ r, Except.ok r ∈ tried num env.script 0 vouchers := by
  rw [executePolled, ← rotate_ran_iff "no vouchers attempted"]
  cases vouchers with
  | nil => exact iff_of_false (not_passed_failure _) (by rintro ⟨p, receipt, he⟩; cases he)
  | cons v vs =>
    rw [List.isEmpty_cons, if_neg Bool.false_ne_true]
    cases hr : rotate num env.script 0 (v :: vs) "no vouchers attempted" with
    | error e => exact iff_of_false (not_passed_raised e) (by rintro ⟨p, receipt, he⟩; cases he)
    | ok rotation =>
      simp only [Except.ok.injEq]
      exact conclude_passed n (v :: vs) rotation

theorem executeVoucher_passed {x : Exit Err Report} (hrun : executeVoucher num expectCount env = some x) :
    Passed x ↔ ∃ r, Except.ok r ∈ triedIn num expectCount env := by
  unfold executeVoucher at hrun
  rw [CountReply.getOutputCount_val] at hrun
  unfold triedIn
  cases ht : env.trigger with
  | error e =>
    rw [ht] at hrun
    cases e with
    | exception text =>
      cases hrun
      exact iff_of_false (not_passed_failure _) (by simp)
    | cancelled =>
      cases hrun
      exact iff_of_false (not_passed_raised _) (by simp)
  | ok u =>
    rw [ht] at hrun
    obtain ⟨⟨y, m⟩, hpoll, hend⟩ := Option.map_eq_some_iff.mp hrun
    have hpolled : polled num expectCount env = some (y, m) := hpoll
    rw [hpolled, ← hend]
    cases y with
    | returned vouchers => exact executePolled_passed _ vouchers
    | raised e => exact iff_of_false (not_passed_raised e) (by simp)
    | stopped => exact iff_of_false (by rintro ⟨r, hr, -⟩; cases hr) (by simp)

theorem triedIn_unique {r r' : Receipt} (h : Except.ok r ∈ triedIn num expectCount env)
    (h' : Except.ok r' ∈ triedIn num expectCount env) : r = r' := by
  unfold triedIn at h h'
  split at h
  next vouchers m ht hpoll =>
    rw [ht, hpoll] at h'
    exact tried_unique h h'
  next => cases h

theorem passed_iff_executed_iff {x : Exit Err Report} (hrun : executeVoucher num expectCount env = some x) :
    (Passed x ↔ Executed num expectCount env) ↔ NoneReverted num expectCount env := by
  rw [executeVoucher_passed hrun]
  constructor
  · intro hiff r hr
    obtain ⟨r', hr', hsucceeded⟩ := hiff.mp ⟨r, hr⟩
    rw [triedIn_unique hr hr']
    exact hsucceeded
  · intro hnone
    constructor
    · rintro ⟨r, hr⟩
      exact ⟨r, hr, hnone r hr⟩
    · rintro ⟨r, hr, -⟩
      exact ⟨r, hr⟩

end Judgement

/-! ### Mined receipts -/

def countReply (n : ℤ) : CountReply :=
  ⟨.ok (.obj [("result", .obj [("pagination", .obj [("total_count", .int n)])])]), n, rfl⟩

/-- A turn that finds the epoch of the voucher claimed. -/
def acceptedTurn : Turn :=
  ⟨0, sampleOutputs, fun _ =>
    ⟨.ok (.obj [("result", .obj [("data", .obj [("status", .str "CLAIM_ACCEPTED")])])]), 0, .ok .null, .ok "", 0, .ok ()⟩⟩

/-- A test whose only script ends with a receipt of the given status. -/
def minedEnv (succeeded : Bool) : Env where
  before := countReply 0
  trigger := .ok ()
  turns := [acceptedTurn]
  lastRestart := 0
  deadline := 126
  script := fun _ => .ok ⟨succeeded, "", "\n", " 0xd4"⟩
  after := countReply 1
  appAddress := "0xab"
  elapsed := 1
  str := fun _ => ""

def minedEnd (succeeded : Bool) : Exit Err Report :=
  .ofExcept (executePolled sampleNumerals (minedEnv succeeded) (.int 0) [sampleVoucher])

theorem minedEnv_run (succeeded : Bool) :
    executeVoucher sampleNumerals 1 (minedEnv succeeded) = some (minedEnd succeeded) := by
  have hpoll : pollVouchers sampleNumerals ⟨1, .int 0, true, 126⟩ [acceptedTurn] 0 =
      some (.returned [sampleVoucher], ⟨[], [], [], 0, [.epochData (.str "0x1") (.obj [("status", .str "CLAIM_ACCEPTED")])]⟩) := by
    with_unfolding_all rfl
  rw [executeVoucher, CountReply.getOutputCount_val]
  change (pollVouchers sampleNumerals ⟨1, .int 0, true, 126⟩ [acceptedTurn] 0).map _ = _
  rw [hpoll]
  rfl

theorem minedEnv_tried (succeeded : Bool) : triedIn sampleNumerals 1 (minedEnv succeeded) =
    [.ok ⟨succeeded, "", "\n", " 0xd4"⟩] := by with_unfolding_all rfl

theorem mined_success_passes : Passed (minedEnd true) ↔ Executed sampleNumerals 1 (minedEnv true) := by
  refine (passed_iff_executed_iff (minedEnv_run true)).mpr fun r hr => ?_
  rw [minedEnv_tried, List.mem_singleton] at hr
  rw [Except.ok.inj hr]

/-- The transaction of the only voucher is mined with status 0, and the test passes. -/
theorem reverted_receipt_passes : ∃ env x, executeVoucher sampleNumerals 1 env = some x ∧
    ¬ (Passed x ↔ Executed sampleNumerals 1 env) := by
  refine ⟨minedEnv false, minedEnd false, minedEnv_run false, fun hiff => ?_⟩
  have hpassed : Passed (minedEnd false) := by
    rw [executeVoucher_passed (minedEnv_run false), minedEnv_tried]
    exact ⟨_, List.mem_singleton.mpr rfl⟩
  obtain ⟨r, hr, hsucceeded⟩ := hiff.mp hpassed
  rw [minedEnv_tried, List.mem_singleton] at hr
  rw [Except.ok.inj hr] at hsucceeded
  cases hsucceeded

end ReleaseValidation.TestRunner.VoucherExecution
