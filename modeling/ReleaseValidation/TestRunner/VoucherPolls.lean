import ReleaseValidation.Foundations.Polls
import ReleaseValidation.TestRunner.NodeReplies

/-! # Polling for vouchers

`_poll_vouchers` asks the node for the outputs of the application until enough of them are
vouchers. When the vouchers are to be executed, their epochs have to be claimed first. An epoch
that the claimer leaves in `CLAIM_COMPUTED` is claimed by the poll itself, at most once.
-/
namespace ReleaseValidation.TestRunner.VoucherPolls
open Store Programs Programs.Program Polls

def claimedStatuses : List String := ["CLAIM_ACCEPTED", "SETTLED", "CLAIM_SUBMITTED"]
def voucherTypes : List String := ["Voucher", "voucher", "VOUCHER"]
def claimManualDelay : ℚ := 60
def inputsProcessedRestartDelay : ℚ := 45
def validatorRestartCooldown : ℚ := 120

/-- `int(s, 16)` and `int(s)`. -/
structure Numerals where
  int16 : String → Except Err ℤ
  int10 : String → Except Err ℤ

/-- What the handling of one voucher meets: the replies, the times and the ends of the scripts. -/
structure Visit where
  epoch : Reply
  now : ℚ
  application : Reply
  script : Except Err String
  restartNow : ℚ
  restart : Except Err Unit

/-- What one turn of the loop meets. -/
structure Turn where
  clock : ℚ
  outputs : Reply
  visit : ℕ → Visit

structure Call where
  expectCount : ℤ
  minOutputIndex : Json
  needEpochClaim : Bool
  deadline : ℚ

/-- A question about an epoch, or an attempt to claim it, with what came of it. -/
inductive Step
  | epochData (epoch data : Json)
  | submitClaim (epoch : Json) (ok : Bool)

structure Memory where
  submittedEpochs : List Scalar
  epochFirstSeen : List (Scalar × ℚ)
  epochInputsSeen : List (Scalar × ℚ)
  validatorLastRestart : ℚ
  steps : List Step

namespace Memory

def ask (epoch data : Json) (m : Memory) : Memory := { m with steps := m.steps ++ [.epochData epoch data] }

def submit (k : Scalar) (epoch : Json) (ok : Bool) (m : Memory) : Memory :=
  { m with submittedEpochs := k :: m.submittedEpochs, steps := m.steps ++ [.submitClaim epoch ok] }

def seeComputed (k : Scalar) (now : ℚ) (m : Memory) : Memory :=
  if (m.epochFirstSeen.lookup k).isSome then m else { m with epochFirstSeen := (k, now) :: m.epochFirstSeen }

def seeInputs (k : Scalar) (now : ℚ) (m : Memory) : Memory :=
  if (m.epochInputsSeen.lookup k).isSome then m else { m with epochInputsSeen := (k, now) :: m.epochInputsSeen }

def restartedAt (now : ℚ) (m : Memory) : Memory := { m with validatorLastRestart := now }

end Memory

/-- `_get_epoch_data`. -/
def getEpochData (reply : Reply) : Except Err Json :=
  fallback (.obj []) do
    let body ← reply
    if ← body.has "error" then pure (.obj [])
    else do
      let result ← body.get "result" (.obj [])
      result.get "data" (.obj [])

/-- `_get_authority_address`. -/
def getAuthorityAddress (reply : Reply) : Except Err Json :=
  fallback (.str "") do
    let body ← reply
    let result ← body.get "result" (.obj [])
    let data ← result.get "data" (.obj [])
    data.get "iconsensus_address" (.str "")

section Handling
variable (num : Numerals)

/-- The block number of a claim, from the text of the epoch. -/
def lastBlock : Json → Except Err ℤ
  | .str s => if s.startsWith "0x" then num.int16 s else num.int10 s
  | j => .error (j.noAttribute "startswith")

/-- `claim_hash.lstrip("0x")`, of which only the failure matters here. -/
def stripHash : Json → Except Err Unit
  | .str _ => .ok ()
  | j => .error (j.noAttribute "lstrip")

/-- `_submit_claim_if_computed`. -/
def submitClaimIfComputed (data : Json) (e : Visit) : Except Err Bool := do
  let status ← data.get "status" (.str "")
  if ← status.isOneOf claimedStatuses then pure true
  else if !status.isText "CLAIM_COMPUTED" then pure false
  else do
    let claimHash ← data.get "claim_hash" (.str "")
    let lastBlockHex ← data.get "last_block" (.str "0x0")
    if !claimHash.truthy then pure false
    else do
      let authority ← getAuthorityAddress e.application
      if !authority.truthy then pure false
      else do
        let _ ← lastBlock num lastBlockHex
        stripHash claimHash
        let _ ← authority.upTo 10
        fallback false (e.script.map fun _ => true)

/-- `_maybe_restart_validator`. -/
def maybeRestartValidator (e : Visit) : Program Memory Err Unit := do
  let last ← read Memory.validatorLastRestart
  if e.restartNow - last < validatorRestartCooldown then pure ()
  else do
    write (Memory.restartedAt e.restartNow)
    ofExcept (fallback () e.restart)

/-- Whether the voucher joins `claimed`. -/
def visitVoucher (v : Json) (e : Visit) : Program Memory Err Bool := do
  let epochIdx ← ofExcept (v.get "epoch_index" (.str "0x0"))
  let data ← ofExcept (getEpochData e.epoch)
  write (Memory.ask epochIdx data)
  let status ← ofExcept (data.get "status" (.str ""))
  if ← ofExcept (status.isOneOf claimedStatuses) then pure true
  else if status.isText "CLAIM_COMPUTED" then do
    let k ← ofExcept epochIdx.scalar
    write (Memory.seeComputed k e.now)
    let firstSeen ← read fun m => (m.epochFirstSeen.lookup k).getD e.now
    if ← read (fun m => m.submittedEpochs.contains k) then pure true
    else if claimManualDelay ≤ e.now - firstSeen then do
      let ok ← ofExcept (submitClaimIfComputed num data e)
      write (Memory.submit k epochIdx ok)
      pure ok
    else pure false
  else if status.isText "INPUTS_PROCESSED" then do
    let k ← ofExcept epochIdx.scalar
    write (Memory.seeInputs k e.now)
    let firstSeen ← read fun m => (m.epochInputsSeen.lookup k).getD e.now
    if inputsProcessedRestartDelay ≤ e.now - firstSeen then maybeRestartValidator e
    pure false
  else pure false

/-- The loop over the vouchers of a turn, from the `i`-th on. -/
def claimedVouchers (visit : ℕ → Visit) : ℕ → List Json → Program Memory Err (List Json)
  | _, [] => pure []
  | i, v :: vs => do
    let ready ← visitVoucher num v (visit i)
    let claimed ← claimedVouchers visit (i + 1) vs
    pure (if ready then v :: claimed else claimed)

end Handling

/-- `x.get("decoded_data", {}).get("type")`. -/
def outputType (x : Json) : Except Err Json := do
  let decoded ← x.get "decoded_data" (.obj [])
  decoded.get "type" .null

def isVoucher (x : Json) : Except Err Bool := do
  let t ← outputType x
  t.isOneOf voucherTypes

/-- The types that the log line names. -/
def loggedTypes (data : Json) : Except Err (List Json) := do
  let first ← data.upTo 5
  let items ← first.elements
  items.mapM outputType

/-- The vouchers of a result, from `min_output_index` on. -/
def listedVouchers (num : Numerals) (c : Call) (result : Json) : Except Err (List Json) := do
  let data ← result.get "data" (.arr [])
  if data.truthy then
    let _ ← data.len
    let _ ← loggedTypes data
  let minIndex ← c.minOutputIndex.integer
  let items ← data.elements
  let items ← if 0 < minIndex then
      keepIf (fun x => do
        let index ← x.get "index" (.str "0x0")
        let n ← index.toInt16 num.int16
        pure (decide (minIndex ≤ n))) items
    else pure items
  keepIf isVoucher items

/-- The vouchers, when there are enough. -/
def enough (c : Call) (vouchers : List Json) : Option (List Json) :=
  if c.expectCount ≤ vouchers.length then some vouchers else none

theorem enough_eq_some_iff {c : Call} {vouchers ws : List Json} :
    enough c vouchers = some ws ↔ vouchers = ws ∧ c.expectCount ≤ ws.length := by
  unfold enough
  split
  next h =>
    constructor
    · rintro ⟨⟩
      exact ⟨rfl, h⟩
    · rintro ⟨rfl, -⟩
      rfl
  next h =>
    constructor
    · nofun
    · rintro ⟨rfl, hle⟩
      exact absurd hle h

/-- The `try` block of one turn. -/
def pollOnce (num : Numerals) (c : Call) (t : Turn) : Program Memory Err (Option (List Json)) := do
  let body ← ofExcept t.outputs
  if ← ofExcept (body.has "error") then do
    let _ ← ofExcept (body.item "error")
    pure none
  else do
    let result ← ofExcept (body.get "result" (.obj []))
    match result with
    | .obj _ => do
      let vouchers ← ofExcept (listedVouchers num c result)
      let vouchers ← if c.needEpochClaim then claimedVouchers num t.visit 0 vouchers else pure vouchers
      pure (enough c vouchers)
    | _ => pure none

/-- `_poll_vouchers`, over the turns of its loop. -/
def pollVouchers (num : Numerals) (c : Call) (turns : List Turn) (lastRestart : ℚ) :
    Option (Exit Err (List Json) × Memory) :=
  poll (fun t => decide (c.deadline ≤ t.clock)) (attempt (pollOnce num c)) (fun m => (.returned [], m))
    ⟨[], [], [], lastRestart, []⟩ turns

/-! ### Readiness -/

/-- The interpreter takes the two values for the same epoch. -/
def SameEpoch (a b : Json) : Prop := a = b ∨ ∃ k, a.scalar = .ok k ∧ b.scalar = .ok k

def HasStatus (data : Json) (names : List String) : Prop :=
  ∃ s ∈ names, data.get "status" (.str "") = .ok (.str s)

/-- The epoch of the voucher was seen with a claimed status, or a submission of its claim succeeded. -/
def Ready (steps : List Step) (v : Json) : Prop :=
  ∃ epoch, v.get "epoch_index" (.str "0x0") = .ok epoch ∧
    ((∃ seen data, Step.epochData seen data ∈ steps ∧ SameEpoch epoch seen ∧ HasStatus data claimedStatuses) ∨
      ∃ submitted, Step.submitClaim submitted true ∈ steps ∧ SameEpoch epoch submitted)

/-- No epoch is found in `CLAIM_COMPUTED` after a submission of its claim has failed. -/
def NoReuse (steps : List Step) : Prop :=
  ∀ before epoch data after, steps = before ++ .epochData epoch data :: after →
    HasStatus data ["CLAIM_COMPUTED"] →
    ∀ failed, Step.submitClaim failed false ∈ before → ¬ SameEpoch epoch failed

theorem Ready.mono {steps steps' : List Step} {v : Json} (h : Ready steps v) (hp : steps <+: steps') :
    Ready steps' v := by
  obtain ⟨epoch, he, ⟨seen, data, hseen, hsame, hst⟩ | ⟨submitted, hsub, hsame⟩⟩ := h
  · exact ⟨epoch, he, Or.inl ⟨seen, data, hp.subset hseen, hsame, hst⟩⟩
  · exact ⟨epoch, he, Or.inr ⟨submitted, hp.subset hsub, hsame⟩⟩

theorem NoReuse.of_prefix {steps steps' : List Step} (h : NoReuse steps') (hp : steps <+: steps') :
    NoReuse steps := by
  obtain ⟨more, rfl⟩ := hp
  intro before epoch data after hs
  refine h before epoch data (after ++ more) ?_
  rw [hs, List.append_assoc, List.cons_append]

/-- Each remembered epoch has a submission. -/
def Recorded (m : Memory) : Prop :=
  ∀ k ∈ m.submittedEpochs, ∃ epoch ok, Step.submitClaim epoch ok ∈ m.steps ∧ epoch.scalar = .ok k

def growth : Frame Memory where
  rel m m' := m.steps <+: m'.steps ∧ (Recorded m → Recorded m')
  refl _ := ⟨List.prefix_rfl, id⟩
  trans hst htu := ⟨hst.1.trans htu.1, htu.2 ∘ hst.2⟩

section Growth
variable {m m' : Memory}

theorem growth_of_eq (hs : m'.steps = m.steps) (hk : m'.submittedEpochs = m.submittedEpochs) :
    growth.rel m m' := by
  refine ⟨hs ▸ List.prefix_rfl, fun h k hmem => ?_⟩
  rw [hk] at hmem
  rw [hs]
  exact h k hmem

theorem growth_ask (epoch data : Json) (m : Memory) : growth.rel m (m.ask epoch data) := by
  refine ⟨List.prefix_append _ _, fun h k hk => ?_⟩
  obtain ⟨e, ok, hmem, he⟩ := h k hk
  exact ⟨e, ok, List.mem_append_left _ hmem, he⟩

theorem growth_submit {k : Scalar} {epoch : Json} (hk : epoch.scalar = .ok k) (ok : Bool) (m : Memory) :
    growth.rel m (m.submit k epoch ok) := by
  refine ⟨List.prefix_append _ _, fun h k' hk' => ?_⟩
  rcases List.mem_cons.mp hk' with rfl | hk'
  · exact ⟨epoch, ok, List.mem_append_right _ (List.mem_singleton.mpr rfl), hk⟩
  · obtain ⟨e, ok', hmem, he⟩ := h k' hk'
    exact ⟨e, ok', List.mem_append_left _ hmem, he⟩

theorem seeComputed_steps (k : Scalar) (now : ℚ) (m : Memory) : (m.seeComputed k now).steps = m.steps := by
  unfold Memory.seeComputed
  split <;> rfl

theorem seeComputed_submitted (k : Scalar) (now : ℚ) (m : Memory) :
    (m.seeComputed k now).submittedEpochs = m.submittedEpochs := by
  unfold Memory.seeComputed
  split <;> rfl

theorem growth_seeInputs (k : Scalar) (now : ℚ) (m : Memory) : growth.rel m (m.seeInputs k now) := by
  unfold Memory.seeInputs
  split
  next => exact growth.refl m
  next => exact growth_of_eq rfl rfl

end Growth

section Visits
variable {num : Numerals} {v : Json} {e : Visit} {m m' : Memory}

theorem maybeRestartValidator_keeps (e : Visit) : Keeps growth (maybeRestartValidator e) := by
  refine (keeps_read _).bind fun last => Keeps.ite (keeps_pure ()) ?_
  refine Keeps.bind (keeps_write ?_) fun _ => keeps_ofExcept _
  exact fun m => growth_of_eq rfl rfl

theorem visitVoucher_keeps (num : Numerals) (v : Json) (e : Visit) : Keeps growth (visitVoucher num v e) := by
  refine (keeps_ofExcept _).bind fun epochIdx => (keeps_ofExcept _).bind fun data =>
    (keeps_write (growth_ask epochIdx data)).bind fun _ => (keeps_ofExcept _).bind fun status =>
    (keeps_ofExcept _).bind fun claimed => ?_
  split
  next => exact keeps_pure true
  next =>
    split
    next =>
      refine keeps_ofExcept_bind fun k hk => (keeps_write fun m => ?_).bind fun _ =>
        (keeps_read _).bind fun firstSeen => (keeps_read _).bind fun already => ?_
      · exact growth_of_eq (seeComputed_steps k e.now m) (seeComputed_submitted k e.now m)
      · split
        next => exact keeps_pure true
        next =>
          refine Keeps.ite ?_ (keeps_pure false)
          exact (keeps_ofExcept _).bind fun ok =>
            (keeps_write (growth_submit hk ok)).bind fun _ => keeps_pure ok
    next =>
      split
      next =>
        refine (keeps_ofExcept _).bind fun k => (keeps_write (growth_seeInputs k e.now)).bind fun _ =>
          (keeps_read _).bind fun firstSeen => ?_
        split
        next => exact (maybeRestartValidator_keeps e).bind fun _ => keeps_pure false
        next => exact keeps_pure false
      next => exact keeps_pure false

/-- How a voucher comes to join `claimed`. -/
theorem visitVoucher_true (h : visitVoucher num v e m = (.returned true, m')) :
    ∃ epoch data status, v.get "epoch_index" (.str "0x0") = .ok epoch ∧ data.get "status" (.str "") = .ok status ∧
      (status.isOneOf claimedStatuses = .ok true ∧ m' = m.ask epoch data ∨
        ∃ k, epoch.scalar = .ok k ∧ status.isText "CLAIM_COMPUTED" = true ∧
          (k ∈ m.submittedEpochs ∧ m' = (m.ask epoch data).seeComputed k e.now ∨
            m' = ((m.ask epoch data).seeComputed k e.now).submit k epoch true)) := by
  obtain ⟨epoch, hepoch, h⟩ := ofExcept_bind_returned_iff.mp h
  obtain ⟨data, -, h⟩ := ofExcept_bind_returned_iff.mp h
  rw [bind_returned (write_apply _ _)] at h
  obtain ⟨status, hstatus, h⟩ := ofExcept_bind_returned_iff.mp h
  obtain ⟨claimed, hclaimed, h⟩ := ofExcept_bind_returned_iff.mp h
  refine ⟨epoch, data, status, hepoch, hstatus, ?_⟩
  split at h
  next hc =>
    rw [hc] at hclaimed
    cases h
    exact Or.inl ⟨hclaimed, rfl⟩
  next =>
    split at h
    next hcomputed =>
      obtain ⟨k, hk, h⟩ := ofExcept_bind_returned_iff.mp h
      rw [bind_returned (write_apply _ _), bind_returned (read_apply _ _), bind_returned (read_apply _ _)] at h
      refine Or.inr ⟨k, hk, hcomputed, ?_⟩
      split at h
      next hmem =>
        cases h
        rw [seeComputed_submitted] at hmem
        exact Or.inl ⟨List.contains_iff_mem.mp hmem, rfl⟩
      next =>
        split at h
        next =>
          obtain ⟨ok, -, h⟩ := ofExcept_bind_returned_iff.mp h
          rw [bind_returned (write_apply _ _)] at h
          cases h
          exact Or.inr rfl
        next => cases h
    next =>
      split at h
      next =>
        obtain ⟨k, -, h⟩ := ofExcept_bind_returned_iff.mp h
        rw [bind_returned (write_apply _ _), bind_returned (read_apply _ _)] at h
        split at h
        next =>
          obtain ⟨_, _, -, h⟩ := bind_returned_iff.mp h
          cases h
        next => cases h
      next => cases h

end Visits

section Runs
variable {num : Numerals} {c : Call} {m m' : Memory} {vs ws : List Json}

theorem visitVoucher_ready {v : Json} {e : Visit} (h : visitVoucher num v e m = (.returned true, m'))
    (hrec : Recorded m) (hno : NoReuse m'.steps) : Ready m'.steps v := by
  obtain ⟨epoch, data, status, hepoch, hstatus, ⟨hclaimed, rfl⟩ | ⟨k, hk, hcomputed, hend⟩⟩ := visitVoucher_true h
  · obtain ⟨s, hs, rfl⟩ := Json.isOneOf_iff.mp hclaimed
    have hasked : Step.epochData epoch data ∈ (m.ask epoch data).steps :=
      List.mem_append_right _ (List.mem_singleton.mpr rfl)
    exact ⟨epoch, hepoch, Or.inl ⟨epoch, data, hasked, Or.inl rfl, s, hs, hstatus⟩⟩
  · rcases hend with ⟨hmem, rfl⟩ | rfl
    · rw [seeComputed_steps] at hno ⊢
      obtain ⟨submitted, ok, hsub, hsame⟩ := hrec k hmem
      have hepochs : SameEpoch epoch submitted := Or.inr ⟨k, hk, hsame⟩
      cases ok with
      | true => exact ⟨epoch, hepoch, Or.inr ⟨submitted, List.mem_append_left _ hsub, hepochs⟩⟩
      | false =>
        rw [Json.isText_iff.mp hcomputed] at hstatus
        exact absurd hepochs (hno m.steps epoch data [] rfl ⟨_, List.mem_singleton.mpr rfl, hstatus⟩ submitted hsub)
    · exact ⟨epoch, hepoch, Or.inr ⟨epoch, List.mem_append_right _ (List.mem_singleton.mpr rfl), Or.inl rfl⟩⟩

theorem claimedVouchers_keeps (num : Numerals) (visit : ℕ → Visit) (i : ℕ) (vs : List Json) :
    Keeps growth (claimedVouchers num visit i vs) := by
  induction vs generalizing i with
  | nil => exact keeps_pure []
  | cons v vs ih =>
    exact (visitVoucher_keeps num v (visit i)).bind fun ready => (ih (i + 1)).bind fun claimed => keeps_pure _

theorem claimedVouchers_ready {visit : ℕ → Visit} {i : ℕ}
    (h : claimedVouchers num visit i vs m = (.returned ws, m')) (hrec : Recorded m) (hno : NoReuse m'.steps) :
    ∀ w ∈ ws, Ready m'.steps w := by
  induction vs generalizing i m m' ws with
  | nil =>
    cases h
    exact fun w hw => absurd hw List.not_mem_nil
  | cons v vs ih =>
    obtain ⟨ready, u, hv, h⟩ := bind_returned_iff.mp h
    obtain ⟨claimed, u', hrest, h⟩ := bind_returned_iff.mp h
    cases h
    have hfirst : growth.rel m u := by simpa only [hv] using visitVoucher_keeps num v (visit i) m
    have hlater : growth.rel u m' := by simpa only [hrest] using claimedVouchers_keeps num visit (i + 1) vs u
    have hclaimed := ih hrest (hfirst.2 hrec) hno
    cases ready with
    | false => exact hclaimed
    | true =>
      have hready := visitVoucher_ready hv hrec (hno.of_prefix hlater.1)
      exact List.forall_mem_cons.mpr ⟨hready.mono hlater.1, hclaimed⟩

theorem pollOnce_keeps (num : Numerals) (c : Call) (t : Turn) : Keeps growth (pollOnce num c t) := by
  refine (keeps_ofExcept _).bind fun body => (keeps_ofExcept _).bind fun failed => ?_
  split
  next => exact (keeps_ofExcept _).bind fun _ => keeps_pure none
  next =>
    refine (keeps_ofExcept _).bind fun result => ?_
    split
    next =>
      refine (keeps_ofExcept _).bind fun vouchers => ?_
      split
      next => exact (claimedVouchers_keeps num t.visit 0 vouchers).bind fun claimed => keeps_pure _
      next => exact keeps_pure _
    next => exact keeps_pure none

/-- The vouchers that a turn returns are those listed, or those among them that are claimed. -/
theorem pollOnce_returned {t : Turn} (h : pollOnce num c t m = (.returned (some ws), m')) :
    ∃ body result, t.outputs = .ok body ∧ body.has "error" = .ok false ∧
      body.get "result" (.obj []) = .ok result ∧ c.expectCount ≤ ws.length ∧
      ∃ listed, listedVouchers num c result = .ok listed ∧
        (c.needEpochClaim = true ∧ claimedVouchers num t.visit 0 listed m = (.returned ws, m') ∨
          c.needEpochClaim = false ∧ ws = listed ∧ m' = m) := by
  obtain ⟨body, hbody, h⟩ := ofExcept_bind_returned_iff.mp h
  obtain ⟨failed, hfailed, h⟩ := ofExcept_bind_returned_iff.mp h
  split at h
  next =>
    obtain ⟨_, -, h⟩ := ofExcept_bind_returned_iff.mp h
    cases h
  next hf =>
    rw [Bool.eq_false_iff.mpr hf] at hfailed
    obtain ⟨result, hresult, h⟩ := ofExcept_bind_returned_iff.mp h
    refine ⟨body, result, hbody, hfailed, hresult, ?_⟩
    split at h
    next =>
      obtain ⟨listed, hlisted, h⟩ := ofExcept_bind_returned_iff.mp h
      split at h
      next hneed =>
        obtain ⟨claimed, u, hclaimed, h⟩ := bind_returned_iff.mp h
        change (Exit.returned (enough c claimed), u) = _ at h
        rw [Prod.mk.injEq, Exit.returned.injEq, enough_eq_some_iff] at h
        obtain ⟨⟨rfl, hcount⟩, rfl⟩ := h
        exact ⟨hcount, listed, hlisted, Or.inl ⟨hneed, hclaimed⟩⟩
      next hneed =>
        change (Exit.returned (enough c listed), m) = _ at h
        rw [Prod.mk.injEq, Exit.returned.injEq, enough_eq_some_iff] at h
        obtain ⟨⟨rfl, hcount⟩, rfl⟩ := h
        exact ⟨hcount, _, hlisted, Or.inr ⟨Bool.eq_false_iff.mpr hneed, rfl, rfl⟩⟩
    next => cases h

/-- How a call ends that returns: at the deadline with nothing, or with the vouchers of its last turn. -/
theorem pollVouchers_returned {turns : List Turn} {lastRestart : ℚ}
    (h : pollVouchers num c turns lastRestart = some (.returned vs, m)) :
    vs = [] ∨ ∃ before t after m₀, turns = before ++ t :: after ∧ t.clock < c.deadline ∧
      rounds (fun t => decide (c.deadline ≤ t.clock)) (attempt (pollOnce num c)) ⟨[], [], [], lastRestart, []⟩
        before = some m₀ ∧ pollOnce num c t m₀ = (.returned (some vs), m) := by
  obtain ⟨before, t, after, m₀, hturns, hrounds, ⟨-, hend⟩ | ⟨hearly, hend⟩⟩ := poll_eq_some_iff.mp h
  · cases hend
    exact Or.inl rfl
  · exact Or.inr ⟨before, t, after, m₀, hturns, Rat.not_le.mp (of_decide_eq_false hearly), hrounds,
      attempt_leave_iff.mp hend⟩

theorem rounds_recorded {turns : List Turn} {lastRestart : ℚ} {late : Turn → Bool}
    (h : rounds late (attempt (pollOnce num c)) ⟨[], [], [], lastRestart, []⟩ turns = some m) : Recorded m := by
  refine rounds_induction (I := fun _ m => Recorded m) ?_ ?_ h
  · exact fun k hk => absurd hk List.not_mem_nil
  · intro _ m t u hrec _ hround
    rw [← attempt_again_state hround]
    exact (pollOnce_keeps num c t m).2 hrec

end Runs

/-- A call that never comes back to an epoch whose claim it failed to submit returns vouchers of
claimed epochs only. -/
theorem returned_vouchers_ready {num : Numerals} {c : Call} {turns : List Turn} {lastRestart : ℚ} {m : Memory}
    {vs : List Json} (hneed : c.needEpochClaim = true)
    (hret : pollVouchers num c turns lastRestart = some (.returned vs, m)) (hno : NoReuse m.steps) :
    ∀ v ∈ vs, Ready m.steps v := by
  rcases pollVouchers_returned hret with rfl | ⟨before, t, after, m₀, -, -, hrounds, hlast⟩
  · exact fun v hv => absurd hv List.not_mem_nil
  · obtain ⟨_, _, -, -, -, -, listed, -, ⟨-, hclaimed⟩ | ⟨hnot, -⟩⟩ := pollOnce_returned hlast
    · exact claimedVouchers_ready hclaimed (rounds_recorded hrounds) hno
    · exact absurd hneed (by rw [hnot]; exact Bool.false_ne_true)

/-! ### A stuck epoch -/

def sampleVoucher : Json :=
  .obj [("index", .str "0x0"), ("epoch_index", .str "0x1"), ("decoded_data", .obj [("type", .str "Voucher")])]

def sampleOutputs : Reply := .ok (.obj [("result", .obj [("data", .arr [sampleVoucher])])])

def computedEpoch : Json :=
  .obj [("status", .str "CLAIM_COMPUTED"), ("claim_hash", .str "0xab"), ("last_block", .str "0x10")]

/-- A turn that finds the epoch of the voucher in `CLAIM_COMPUTED`. -/
def stuckTurn (clock : ℚ) (script : Except Err String) : Turn :=
  ⟨clock, sampleOutputs, fun _ =>
    ⟨.ok (.obj [("result", .obj [("data", computedEpoch)])]), clock,
      .ok (.obj [("result", .obj [("data", .obj [("iconsensus_address", .str "0xc7")])])]), script, clock, .ok ()⟩⟩

def sampleNumerals : Numerals where
  int16 s := if s = "0x0" then .ok 0 else if s = "0x10" then .ok 16 else .error (.exception "invalid literal for int() with base 16")
  int10 _ := .error (.exception "invalid literal for int() with base 10")

def sampleCall : Call := ⟨1, .int 0, true, 126⟩

def stuckMemory (steps : List Step) : Memory := ⟨[.str "0x1"], [(.str "0x1", 0)], [], 0, steps⟩

theorem stuck_epoch_claimed : Ready
    [.epochData (.str "0x1") computedEpoch, .epochData (.str "0x1") computedEpoch, .submitClaim (.str "0x1") true]
    sampleVoucher := by
  have hret : pollVouchers sampleNumerals sampleCall [stuckTurn 0 (.ok ""), stuckTurn 60 (.ok "")] 0 =
      some (.returned [sampleVoucher], stuckMemory [.epochData (.str "0x1") computedEpoch,
        .epochData (.str "0x1") computedEpoch, .submitClaim (.str "0x1") true]) := by with_unfolding_all rfl
  refine returned_vouchers_ready rfl hret ?_ sampleVoucher (List.mem_singleton.mpr rfl)
  intro before epoch data after hs _ failed hfailed
  have hmem := List.mem_append_left (Step.epochData epoch data :: after) hfailed
  rw [← hs] at hmem
  simp [stuckMemory] at hmem

/-- The submission fails, and the next turn takes the epoch for claimed. -/
theorem failed_submission_returned : ∃ turns vs m v,
    pollVouchers sampleNumerals sampleCall turns 0 = some (.returned vs, m) ∧ v ∈ vs ∧ ¬ Ready m.steps v := by
  refine ⟨[stuckTurn 0 (.ok ""), stuckTurn 60 (.error (.exception "execution reverted")), stuckTurn 62 (.ok "")],
    [sampleVoucher], stuckMemory [.epochData (.str "0x1") computedEpoch, .epochData (.str "0x1") computedEpoch,
      .submitClaim (.str "0x1") false, .epochData (.str "0x1") computedEpoch], sampleVoucher,
    by with_unfolding_all rfl, List.mem_singleton.mpr rfl, ?_⟩
  rintro ⟨epoch, -, ⟨seen, data, hseen, -, s, hs, hstatus⟩ | ⟨submitted, hsub, -⟩⟩
  · obtain ⟨-, rfl⟩ : seen = .str "0x1" ∧ data = computedEpoch := by simpa [stuckMemory] using hseen
    have hcomputed : Json.str "CLAIM_COMPUTED" = .str s := Except.ok.inj hstatus
    cases hcomputed
    exact absurd hs (by decide)
  · simp [stuckMemory] at hsub

end ReleaseValidation.TestRunner.VoucherPolls
