import ReleaseValidation.TestRunner.VoucherPolls

/-! # The voucher-generation test

`_check_generation` counts the outputs of the application, triggers a voucher and polls until
the node lists enough vouchers. Which of the listed vouchers the trigger has brought about is
decided against the history of the application.
-/
namespace ReleaseValidation.TestRunner.VoucherGeneration
open Store Programs Programs.Program Polls VoucherPolls

/-- What the test meets. -/
structure Env where
  before : Reply
  trigger : Except Err Unit
  turns : List Turn
  lastRestart : ℚ
  /-- `int(time.monotonic() - t0)`, at the end. -/
  elapsed : ℤ

def setupFailed (text : String) : AssertionResult :=
  ⟨.str "voucher_v2", false, none, none, some ("Voucher setup failed: " ++ text)⟩

def foundResult (expectCount elapsed : ℤ) (vouchers : List Json) : AssertionResult :=
  ⟨.str "voucher_v2", decide (expectCount ≤ vouchers.length),
    some (.json (.str (">= " ++ toString expectCount ++ " voucher(s) in cartesi_listOutputs"))),
    some (.json (.str (toString vouchers.length ++ " voucher(s) found"))),
    some ("Found " ++ toString vouchers.length ++ " new voucher(s) after polling " ++ toString elapsed ++ "s")⟩

def report (expectCount elapsed : ℤ) (before : Json) (vouchers : List Json) : Except Err Report := do
  let n ← before.integer
  pure (.counted "outputs" n (foundResult expectCount elapsed vouchers) (n + vouchers.length) true)

/-- `_check_generation`. -/
def checkGeneration (num : Numerals) (expectCount : ℤ) (deadline : ℚ) (env : Env) : Option (Exit Err Report) :=
  match getOutputCount env.before with
  | .error e => some (.raised e)
  | .ok before =>
    match env.trigger with
    | .error (.exception text) => some (.returned (.single (setupFailed text)))
    | .error .cancelled => some (.raised .cancelled)
    | .ok () =>
      (pollVouchers num ⟨expectCount, .int 0, false, deadline⟩ env.turns env.lastRestart).map fun
        | (.returned vouchers, _) => Exit.ofExcept (report expectCount env.elapsed before vouchers)
        | (.raised e, _) => .raised e
        | (.stopped, _) => .stopped

/-! ### The application and its node -/

/-- An output as the node lists it: its type can be read. -/
abbrev Output := {x : Json // ∃ b, isVoucher x = .ok b}

def Output.voucher (o : Output) : Bool :=
  match isVoucher o.val with
  | .ok b => b
  | .error _ => false

/-- `cartesi_listOutputs` with the limit of the executor: the first outputs, and how many there are. -/
def listing (outputs : List Output) : Json :=
  .obj [("jsonrpc", .str "2.0"), ("id", .int 1),
    ("result", .obj [("data", .arr ((outputs.take 1000).map Subtype.val)),
      ("pagination", .obj [("total_count", .int outputs.length), ("limit", .int 1000), ("offset", .int 0)])])]

/-- How a call for the outputs ends. A malformed answer has no object for its result. -/
inductive Answer
  | outputs
  | refused (error : Json)
  | lost (text : String)
  | malformed (body : Json) (noResult : ∀ fields, body.get "result" (.obj []) ≠ .ok (.obj fields))

def Answer.succeeds : Answer → Bool
  | outputs => true
  | _ => false

def Answer.reply (outputs : List Output) : Answer → Reply
  | .outputs => .ok (listing outputs)
  | .refused error => .ok (.obj [("jsonrpc", .str "2.0"), ("error", error), ("id", .int 1)])
  | .lost text => .error (.exception text)
  | .malformed body _ => .ok body

structure Poll where
  clock : ℚ
  outputs : List Output
  answer : Answer
  visit : ℕ → Visit

def Poll.turn (p : Poll) : Turn := ⟨p.clock, p.answer.reply p.outputs, p.visit⟩

/-- The outputs of the application at the count before, at the trigger and at each poll, with the
answers of the node. Outputs are only added. -/
structure History where
  initial : List Output
  countAnswer : Answer
  trigger : Except Err Unit
  atTrigger : List Output
  polls : List Poll
  lastRestart : ℚ
  elapsed : ℤ
  grows : List.IsChain (· <+: ·) (initial :: atTrigger :: polls.map Poll.outputs)

def History.env (h : History) : Env :=
  ⟨h.countAnswer.reply h.initial, h.trigger, h.polls.map Poll.turn, h.lastRestart, h.elapsed⟩

/-- The vouchers of the page that the node gives. -/
def pageVouchers (outputs : List Output) : List Output := (outputs.take 1000).filter Output.voucher

section Made
variable (expectCount : ℤ) (deadline : ℚ)

/-- The poll lists enough vouchers, new or old. -/
def Poll.suffices (p : Poll) : Bool :=
  p.answer.succeeds && decide (expectCount ≤ (pageVouchers p.outputs).length)

namespace History
variable (h : History)

/-- The polls that the test makes. -/
def made : List Poll :=
  Polls.made (fun p => decide (deadline ≤ p.clock)) (fun p => p.suffices expectCount) h.polls

/-- The outputs at the last poll. -/
def atEnd : List Output := (((h.made expectCount deadline).getLast?).map Poll.outputs).getD h.atTrigger

/-- The vouchers that the last poll lists, when they are enough. -/
def found : List Output :=
  match (h.made expectCount deadline).getLast? with
  | some p => if p.suffices expectCount then pageVouchers p.outputs else []
  | none => []

def newVouchers (outputs : List Output) : List Output := (outputs.drop h.atTrigger.length).filter Output.voucher

def allSucceed : Bool := h.countAnswer.succeeds && (h.made expectCount deadline).all (·.answer.succeeds)

end History
end Made

/-- The report passes on new vouchers only, and its counts are those of the application. -/
structure Certifies (expectCount : ℤ) (deadline : ℚ) (h : History) (r : Report) : Prop where
  new : r.main.passed = true → expectCount ≤ (h.newVouchers (h.atEnd expectCount deadline)).length
  counts : h.allSucceed expectCount deadline = true → ∀ noun before main after inc,
    r = .counted noun before main after inc →
      before = h.initial.length ∧ after = (h.atEnd expectCount deadline).length

/-! ### What the poll reads off a listing -/

section Listings
variable {num : Numerals} {c : Call} {m : Memory}

theorem Output.isVoucher_eq (o : Output) : isVoucher o.val = .ok o.voucher := by
  obtain ⟨b, hb⟩ := o.property
  rw [Output.voucher, hb]

theorem Output.outputType_ok (o : Output) : ∃ t, outputType o.val = .ok t := by
  obtain ⟨b, hb⟩ := o.property
  obtain ⟨t, ht, -⟩ := except_bind_ok hb
  exact ⟨t, ht⟩

theorem keepIf_outputs (os : List Output) :
    keepIf isVoucher (os.map Subtype.val) = .ok ((os.filter Output.voucher).map Subtype.val) := by
  induction os with
  | nil => rfl
  | cons o os ih =>
    rw [List.map_cons, keepIf, o.isVoucher_eq, ih, List.filter_cons]
    cases o.voucher <;> rfl

theorem mapM_outputType (os : List Output) : ∃ ts, (os.map Subtype.val).mapM outputType = .ok ts := by
  induction os with
  | nil => exact ⟨[], rfl⟩
  | cons o os ih =>
    obtain ⟨t, ht⟩ := o.outputType_ok
    obtain ⟨ts, hts⟩ := ih
    refine ⟨t :: ts, ?_⟩
    rw [List.map_cons, List.mapM_cons, ht]
    change (do let ts ← (os.map Subtype.val).mapM outputType; pure (t :: ts)) = _
    rw [hts]
    rfl

theorem loggedTypes_outputs (os : List Output) : ∃ ts, loggedTypes (.arr (os.map Subtype.val)) = .ok ts := by
  obtain ⟨ts, hts⟩ := mapM_outputType (os.take 5)
  refine ⟨ts, ?_⟩
  change ((os.map Subtype.val).take 5).mapM outputType = _
  rw [← List.map_take, hts]

theorem listedVouchers_page (hmin : c.minOutputIndex = .int 0) {result : Json} {os : List Output}
    (hdata : result.get "data" (.arr []) = .ok (.arr (os.map Subtype.val))) :
    listedVouchers num c result = .ok ((os.filter Output.voucher).map Subtype.val) := by
  obtain ⟨ts, hts⟩ := loggedTypes_outputs os
  have hvouchers := keepIf_outputs os
  simp only [listedVouchers, hdata, hmin, Json.integer, Json.elements, bind, Except.bind, pure, Except.pure]
  split
  next => rw [Json.len, hts]; exact hvouchers
  next => exact hvouchers

theorem pollOnce_listing (hmin : c.minOutputIndex = .int 0) (hneed : c.needEpochClaim = false) {t : Turn}
    {os : List Output} (ht : t.outputs = .ok (listing os)) :
    pollOnce num c t m = (.returned (enough c ((pageVouchers os).map Subtype.val)), m) := by
  unfold pollOnce
  rw [ht, bind_returned (ofExcept_ok _ _)]
  refine ofExcept_bind_returned_iff.mpr ⟨false, rfl, ?_⟩
  rw [if_neg Bool.false_ne_true]
  refine ofExcept_bind_returned_iff.mpr ⟨_, rfl, ?_⟩
  refine ofExcept_bind_returned_iff.mpr ⟨_, listedVouchers_page hmin rfl, ?_⟩
  rw [hneed]
  rfl

/-- A body that is no object raises, at one of the reads. -/
theorem attempt_malformed {body : Json} (hbody : ∀ fields, body.get "result" (.obj []) ≠ .ok (.obj fields)) {t : Turn}
    (ht : t.outputs = .ok body) : attempt (pollOnce num c) m t = .again m := by
  have hpoll : pollOnce num c t m = (.returned none, m) ∨ ∃ text, pollOnce num c t m = (.raised (.exception text), m) := by
    unfold pollOnce
    rw [ht, bind_returned (ofExcept_ok _ _)]
    cases body with
    | obj fields =>
      cases herror : fields.lookup "error" with
      | some e =>
        rw [bind_returned (show ofExcept ((Json.obj fields).has "error") m = (.returned true, m) by
          rw [Json.has, herror]; rfl)]
        rw [if_pos rfl, bind_returned (show ofExcept ((Json.obj fields).item "error") m = (.returned e, m) by
          rw [Json.item, herror]; rfl)]
        exact Or.inl rfl
      | none =>
        rw [bind_returned (show ofExcept ((Json.obj fields).has "error") m = (.returned false, m) by
          rw [Json.has, herror]; rfl)]
        rw [if_neg Bool.false_ne_true, Json.get, bind_returned (ofExcept_ok _ _)]
        cases hresult : (fields.lookup "result").getD (.obj []) with
        | obj fs => exact absurd (congrArg Except.ok hresult) (hbody fs)
        | _ => exact Or.inl rfl
    | arr items =>
      rw [Json.has, bind_returned (ofExcept_ok _ _)]
      split
      next => exact Or.inr ⟨_, rfl⟩
      next => exact Or.inr ⟨_, rfl⟩
    | str s =>
      rw [Json.has, bind_returned (ofExcept_ok _ _)]
      split
      next => exact Or.inr ⟨_, rfl⟩
      next => exact Or.inr ⟨_, rfl⟩
    | null => exact Or.inr ⟨_, rfl⟩
    | bool b => exact Or.inr ⟨_, rfl⟩
    | int n => exact Or.inr ⟨_, rfl⟩
    | float x => exact Or.inr ⟨_, rfl⟩
  exact attempt_again_iff.mpr hpoll

theorem attempt_turn (hmin : c.minOutputIndex = .int 0) (hneed : c.needEpochClaim = false) (p : Poll) :
    attempt (pollOnce num c) m p.turn =
      if p.suffices c.expectCount then .leave (.returned ((pageVouchers p.outputs).map Subtype.val), m) else .again m := by
  obtain ⟨clock, os, answer, visit⟩ := p
  cases answer with
  | refused error => rfl
  | lost text => rfl
  | malformed body hbody => exact attempt_malformed hbody rfl
  | outputs =>
    have hpoll : pollOnce num c (Poll.turn ⟨clock, os, .outputs, visit⟩) m =
        (.returned (enough c ((pageVouchers os).map Subtype.val)), m) := pollOnce_listing hmin hneed rfl
    unfold attempt
    rw [hpoll, enough, List.length_map]
    by_cases hle : c.expectCount ≤ (pageVouchers os).length
    · simp [Poll.suffices, Answer.succeeds, hle]
    · simp [Poll.suffices, Answer.succeeds, hle]

end Listings

section Runs
variable {num : Numerals} {expectCount : ℤ} {deadline : ℚ} {h : History}

theorem found_of_last {pre : List Poll} {p : Poll} (hmade : h.made expectCount deadline = pre ++ [p])
    (hp : p.suffices expectCount = true) : h.found expectCount deadline = pageVouchers p.outputs := by
  rw [History.found, hmade, List.getLast?_concat]
  exact if_pos hp

theorem found_of_none (hnone : ∀ p ∈ h.made expectCount deadline, p.suffices expectCount = false) :
    h.found expectCount deadline = [] := by
  unfold History.found
  cases hlast : (h.made expectCount deadline).getLast? with
  | none => rfl
  | some p =>
    have hp := hnone p (List.mem_of_getLast? hlast)
    exact if_neg (Bool.eq_false_iff.mp hp)

theorem pollVouchers_found {x : Exit Err (List Json)} {m : Memory}
    (hpoll : pollVouchers num ⟨expectCount, .int 0, false, deadline⟩ (h.polls.map Poll.turn) h.lastRestart =
      some (x, m)) : x = .returned ((h.found expectCount deadline).map Subtype.val) := by
  unfold pollVouchers at hpoll
  rw [poll_map] at hpoll
  have hturn : ∀ m (p : Poll), attempt (pollOnce num ⟨expectCount, .int 0, false, deadline⟩) m p.turn =
      if p.suffices expectCount then .leave (.returned ((pageVouchers p.outputs).map Subtype.val), m) else .again m :=
    fun m p => attempt_turn rfl rfl p
  have hleave : ∀ m (p : Poll), p.suffices expectCount = true →
      ∃ a, attempt (pollOnce num ⟨expectCount, .int 0, false, deadline⟩) m p.turn = .leave a :=
    fun m p hp => ⟨_, (hturn m p).trans (if_pos hp)⟩
  have hagain : ∀ m (p : Poll), p.suffices expectCount = false →
      ∃ u, attempt (pollOnce num ⟨expectCount, .int 0, false, deadline⟩) m p.turn = .again u :=
    fun m p hp => ⟨m, (hturn m p).trans (if_neg (Bool.eq_false_iff.mp hp))⟩
  rcases (poll_eq_some_iff_made hleave hagain).mp hpoll with
    ⟨pre, p, t, hmade, -, hp, -, hround⟩ | ⟨t, hnone, -, -, hend⟩
  · rw [hturn, if_pos hp] at hround
    rw [found_of_last hmade hp]
    cases hround
    rfl
  · cases hend
    rw [found_of_none hnone]
    rfl

/-- Where a poll lists enough vouchers, enough of all are new, and where every call succeeds, the
application has got exactly the vouchers found since the count. -/
def OnlyNew (expectCount : ℤ) (deadline : ℚ) (h : History) : Prop :=
  h.trigger = .ok () →
    (∀ p ∈ h.made expectCount deadline, p.suffices expectCount = true →
      expectCount ≤ (h.newVouchers p.outputs).length) ∧
    (h.allSucceed expectCount deadline = true →
      (h.atEnd expectCount deadline).length = h.initial.length + (h.found expectCount deadline).length)

theorem getOutputCount_reply (a : Answer) (os : List Output) :
    ∃ n : ℤ, getOutputCount (a.reply os) = .ok (.int n) ∧ (a.succeeds = true → n = os.length) := by
  cases a with
  | outputs => exact ⟨os.length, rfl, fun _ => rfl⟩
  | refused error => exact ⟨0, rfl, fun hs => absurd hs Bool.false_ne_true⟩
  | lost text => exact ⟨0, rfl, fun hs => absurd hs Bool.false_ne_true⟩
  | malformed body hbody =>
    refine ⟨0, ?_, fun hs => absurd hs Bool.false_ne_true⟩
    change fallback (.int 0) (countOf body) = _
    unfold countOf
    cases hresult : body.get "result" (.obj []) with
    | error e =>
      obtain ⟨text, rfl⟩ := (uncancelled_get body "result" (.obj [])).exception hresult
      rfl
    | ok result =>
      cases result with
      | obj fields => exact absurd hresult (hbody fields)
      | _ => rfl

/-- What a finished test reports. -/
theorem checkGeneration_returned {r : Report} (hrun : checkGeneration num expectCount deadline h.env = some (.returned r)) :
    (h.trigger ≠ .ok () ∧ ∃ text, r = .single (setupFailed text)) ∨
      h.trigger = .ok () ∧ ∃ n : ℤ, (h.countAnswer.succeeds = true → n = h.initial.length) ∧
        r = .counted "outputs" n (foundResult expectCount h.elapsed ((h.found expectCount deadline).map Subtype.val))
          (n + (h.found expectCount deadline).length) true := by
  obtain ⟨n, hn, htrue⟩ := getOutputCount_reply h.countAnswer h.initial
  have hcount : getOutputCount h.env.before = .ok (.int n) := hn
  unfold checkGeneration at hrun
  rw [hcount] at hrun
  change (match h.trigger with | .error (.exception text) => _ | .error .cancelled => _ | .ok () => _) = _ at hrun
  cases htrigger : h.trigger with
  | error e =>
    rw [htrigger] at hrun
    cases e with
    | exception text =>
      cases hrun
      exact Or.inl ⟨nofun, text, rfl⟩
    | cancelled => cases hrun
  | ok u =>
    rw [htrigger] at hrun
    obtain ⟨⟨x, m⟩, hpoll, hend⟩ := Option.map_eq_some_iff.mp hrun
    rw [pollVouchers_found hpoll] at hend
    cases hend
    refine Or.inr ⟨rfl, n, htrue, ?_⟩
    rw [List.length_map]
    rfl

theorem atEnd_of_suffices {p : Poll} (hmem : p ∈ h.made expectCount deadline) (hp : p.suffices expectCount = true) :
    h.atEnd expectCount deadline = p.outputs ∧ h.found expectCount deadline = pageVouchers p.outputs := by
  obtain ⟨pre, hmade⟩ := made_of_leaves hmem hp
  refine ⟨?_, found_of_last hmade hp⟩
  have hlast : (h.made expectCount deadline).getLast? = some p := by
    rw [History.made, hmade, List.getLast?_concat]
  rw [History.atEnd, hlast]
  rfl

theorem suffices_length {p : Poll} (hp : p.suffices expectCount = true) :
    expectCount ≤ (pageVouchers p.outputs).length :=
  of_decide_eq_true (Bool.and_eq_true_iff.mp hp).2

theorem foundResult_passed (elapsed : ℤ) (os : List Output) :
    (foundResult expectCount elapsed (os.map Subtype.val)).passed = true ↔ expectCount ≤ os.length := by
  rw [foundResult, decide_eq_true_iff, List.length_map]

theorem certifies_iff_only_new {r : Report} (hrun : checkGeneration num expectCount deadline h.env = some (.returned r)) :
    Certifies expectCount deadline h r ↔ OnlyNew expectCount deadline h := by
  rcases checkGeneration_returned hrun with ⟨hfailed, text, rfl⟩ | ⟨htrigger, n, htrue, rfl⟩
  · constructor
    · exact fun _ hok => absurd hok hfailed
    · exact fun _ => ⟨fun hpassed => absurd hpassed Bool.false_ne_true, fun _ _ _ _ _ _ he => by cases he⟩
  · constructor
    · rintro ⟨hnew, hcounts⟩ -
      constructor
      · intro p hmem hp
        obtain ⟨hend, hfound⟩ := atEnd_of_suffices hmem hp
        rw [← hend]
        refine hnew ((foundResult_passed h.elapsed _).mpr ?_)
        rw [hfound]
        exact suffices_length hp
      · intro hall
        obtain ⟨hbefore, hafter⟩ := hcounts hall _ _ _ _ _ rfl
        rw [hbefore] at hafter
        exact_mod_cast hafter.symm
    · intro honly
      obtain ⟨hnew, hcounts⟩ := honly htrigger
      constructor
      · intro hpassed
        have hle := (foundResult_passed h.elapsed _).mp hpassed
        by_cases hex : ∃ p ∈ h.made expectCount deadline, p.suffices expectCount = true
        · obtain ⟨p, hmem, hp⟩ := hex
          rw [(atEnd_of_suffices hmem hp).1]
          exact hnew p hmem hp
        · have hnone : ∀ p ∈ h.made expectCount deadline, p.suffices expectCount = false :=
            fun p hmem => Bool.eq_false_iff.mpr fun hp => hex ⟨p, hmem, hp⟩
          rw [found_of_none hnone] at hle
          exact Int.le_trans hle (Int.natCast_nonneg _)
      · rintro hall noun before main after inc ⟨⟩
        have hn := htrue (Bool.and_eq_true_iff.mp hall).1
        refine ⟨hn, ?_⟩
        rw [hn, hcounts hall]
        push_cast
        rfl

end Runs

/-! ### Fresh and stale applications -/

theorem History.prefix_of_mem (h : History) {p : Poll} (hp : p ∈ h.polls) : h.atTrigger <+: p.outputs := by
  have htrans : IsTrans (List Output) (· <+: ·) := ⟨fun _ _ _ => List.IsPrefix.trans⟩
  have hpairs := List.isChain_iff_pairwise.mp h.grows
  have htail := (List.pairwise_cons.mp hpairs).2
  exact (List.pairwise_cons.mp htail).1 p.outputs (List.mem_map_of_mem hp)

/-- An application without vouchers at the trigger is never passed on old ones. -/
theorem new_of_suffices {expectCount : ℤ} {h : History} (hnone : ∀ o ∈ h.atTrigger, o.voucher = false)
    {p : Poll} (hmem : p ∈ h.polls) (hp : p.suffices expectCount = true) :
    expectCount ≤ (h.newVouchers p.outputs).length := by
  obtain ⟨rest, hrest⟩ := h.prefix_of_mem hmem
  have hold : h.atTrigger.filter Output.voucher = [] :=
    List.filter_eq_nil_iff.mpr fun o ho => by rw [hnone o ho]; exact Bool.false_ne_true
  have hnew : h.newVouchers p.outputs = p.outputs.filter Output.voucher := by
    rw [History.newVouchers, ← hrest, List.drop_left, List.filter_append, hold, List.nil_append]
  have hpage : (pageVouchers p.outputs).length ≤ (p.outputs.filter Output.voucher).length :=
    ((List.take_sublist 1000 p.outputs).filter _).length_le
  have henough := suffices_length hp
  rw [hnew]
  omega

def sampleOutput : Output := ⟨sampleVoucher, true, rfl⟩

def noVisit : Visit := ⟨.ok .null, 0, .ok .null, .ok "", 0, .ok ()⟩

/-- One voucher at the only poll, for an application that had the outputs `old` before. -/
def sampleHistory (old : List Output) (hold : old <+: [sampleOutput]) : History where
  initial := old
  countAnswer := .outputs
  trigger := .ok ()
  atTrigger := old
  polls := [⟨0, [sampleOutput], .outputs, fun _ => noVisit⟩]
  lastRestart := 0
  elapsed := 0
  grows := by simpa using hold

theorem fresh_sample_certified : Certifies 1 90 (sampleHistory [] List.nil_prefix)
    (.counted "outputs" 0 (foundResult 1 0 [sampleVoucher]) 1 true) := by
  have hrun : checkGeneration sampleNumerals 1 90 (sampleHistory [] List.nil_prefix).env =
      some (.returned (.counted "outputs" 0 (foundResult 1 0 [sampleVoucher]) 1 true)) := by with_unfolding_all rfl
  refine (certifies_iff_only_new hrun).mpr fun _ => ⟨fun p hmem hp => ?_, fun _ => by with_unfolding_all rfl⟩
  exact new_of_suffices (fun o ho => absurd ho List.not_mem_nil) (mem_of_mem_made hmem).1 hp

/-- The voucher that was there before the trigger passes the test. -/
theorem old_voucher_passes : ∃ h r, checkGeneration sampleNumerals 1 90 (History.env h) = some (.returned r) ∧
    ¬ Certifies 1 90 h r := by
  refine ⟨sampleHistory [sampleOutput] List.prefix_rfl, .counted "outputs" 1 (foundResult 1 0 [sampleVoucher]) 2 true,
    by with_unfolding_all rfl, fun hcert => ?_⟩
  have hnew : (1 : ℤ) ≤ 0 := hcert.new (by with_unfolding_all rfl)
  exact absurd hnew (by decide)

end ReleaseValidation.TestRunner.VoucherGeneration
