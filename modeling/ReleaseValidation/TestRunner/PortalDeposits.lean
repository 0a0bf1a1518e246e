import ReleaseValidation.TestRunner.CalldataRoundTrips
import ReleaseValidation.TestRunner.ChainReverts

/-! # Deposits into the portals

`portal_deposit` deposits Ether or tokens with an application. A token that is deployed already is
minted, approved and deposited by transactions that the executor sends one by one, each after the
receipt of the one before it; otherwise a script deploys it first. The input count of the node
frames the result.
-/
namespace ReleaseValidation.TestRunner.PortalDeposits
open Store Programs Polls Calldata
open ChainReverts (Submission ReceiptPoll)
open JsonTexts (Text)

/-! ### Transactions -/

/-- A transaction of a plan. The encoder of its data may raise. -/
structure Planned where
  sender : Text
  recipient : Text
  value : ℤ
  data : Option Text

structure Call where
  sender : Text
  recipient : Text
  value : ℤ
  data : Text
  deriving DecidableEq

def Planned.call (p : Planned) : Option Call := p.data.map fun data => ⟨p.sender, p.recipient, p.value, data⟩

structure Services where
  /-- `int(s, 16)` and `int(j)`. -/
  int16 : String → Except Err ℤ
  int : Json → Except Err ℤ
  str : Json → String
  repr : String → String
  /-- `f"{type(exc).__name__}: {exc}"`. -/
  describe : Err → String
  /-- What an encoder raises. -/
  unencodable : String

section Sending
variable (sv : Services)

def askReceipt (_ : Unit) (e : ReceiptPoll) : Round Unit (Except Err Json) :=
  match (do
    let body ← e.reply.mapError .exception
    body.get "result" .null : Except Err Json) with
  | .error err => .leave (.error err)
  | .ok receipt => if receipt.truthy then .leave (.ok receipt) else .again ()

/-- `_wait_receipt`. -/
def waitReceipt (hash : Json) (s : Submission) : Option (Except Err Json) :=
  poll (fun e => decide (s.deadline ≤ e.clock)) askReceipt
    (fun _ => .error (.exception ("Timeout waiting for receipt of " ++ sv.str hash))) () s.receipts

/-- `eth_sendTransaction`. -/
def sendTransaction (s : Submission) : Except Err Json := do
  let body ← s.send.mapError .exception
  if ← body.has "error" then do
    let e ← body.item "error"
    .error (.exception ("eth_sendTransaction error: " ++ sv.str e))
  else body.item "result"

/-- `int(receipt.get("status", "0x0"), 16)`. -/
def statusOf (receipt : Json) : Except Err ℤ := do
  let status ← receipt.get "status" (.str "0x0")
  status.toInt16 sv.int16

def checkReceipt (hash receipt : Json) : Except Err Unit := do
  if (← statusOf sv receipt) ≠ 1 then .error (.exception ("Transaction reverted: " ++ sv.str hash)) else pure ()

/-- `send_and_wait`. -/
def sendAndWait (s : Submission) : Option (Except Err Unit) :=
  match sendTransaction sv s with
  | .error e => some (.error e)
  | .ok hash => (waitReceipt sv hash s).map fun receipt => receipt >>= checkReceipt sv hash

/-- The transactions of a plan from the `i`-th submission on: how they end, and which are sent. -/
def sendAll (submission : ℕ → Submission) : ℕ → List Planned → Option (Except Err Unit × List Call)
  | _, [] => some (.ok (), [])
  | i, p :: ps =>
    match p.call with
    | none => some (.error (.exception sv.unencodable), [])
    | some call =>
      match sendAndWait sv (submission i) with
      | none => none
      | some (.error e) => some (.error e, [call])
      | some (.ok ()) => (sendAll submission (i + 1) ps).map fun r => (r.1, call :: r.2)

/-- The transaction is mined in time and succeeds. -/
def Succeeds (s : Submission) : Prop := sendAndWait sv s = some (.ok ())

end Sending

section Plans
variable {sv : Services} {submission : ℕ → Submission} {i : ℕ} {p : Planned} {ps : List Planned} {r : Except Err Unit}
  {sent : List Call}

/-- How a plan goes on after its first transaction. -/
theorem sendAll_cons (h : sendAll sv submission i (p :: ps) = some (r, sent)) :
    (p.data = none ∧ (∃ e, r = .error e) ∧ sent = []) ∨
    (∃ call, p.call = some call ∧ ¬ Succeeds sv (submission i) ∧ (∃ e, r = .error e) ∧ sent = [call]) ∨
    ∃ call rest, p.call = some call ∧ Succeeds sv (submission i) ∧
      sendAll sv submission (i + 1) ps = some (r, rest) ∧ sent = call :: rest := by
  rw [sendAll] at h
  cases hcall : p.call with
  | none =>
    rw [hcall] at h
    cases h
    exact Or.inl ⟨Option.map_eq_none_iff.mp hcall, ⟨_, rfl⟩, rfl⟩
  | some call =>
    rw [hcall] at h
    dsimp only at h
    unfold Succeeds
    cases hsend : sendAndWait sv (submission i) with
    | none =>
      rw [hsend] at h
      cases h
    | some x =>
      rw [hsend] at h
      cases x with
      | error e =>
        cases h
        exact Or.inr (Or.inl ⟨call, rfl, by simp, ⟨e, rfl⟩, rfl⟩)
      | ok u =>
        obtain ⟨⟨r', rest⟩, hrest, heq⟩ := Option.map_eq_some_iff.mp h
        cases heq
        exact Or.inr (Or.inr ⟨call, rest, rfl, rfl, hrest, rfl⟩)

/-- Every transaction of the plan can be encoded, is mined in time and succeeds. -/
def GoesThrough (sv : Services) (submission : ℕ → Submission) : ℕ → List Planned → Prop
  | _, [] => True
  | i, p :: ps => p.data.isSome = true ∧ Succeeds sv (submission i) ∧ GoesThrough sv submission (i + 1) ps

theorem sendAll_ok_iff (h : sendAll sv submission i ps = some (r, sent)) : r = .ok () ↔ GoesThrough sv submission i ps := by
  induction ps generalizing i r sent with
  | nil =>
    cases h
    exact iff_of_true rfl trivial
  | cons p ps ih =>
    rw [GoesThrough]
    obtain ⟨hdata, ⟨e, rfl⟩, -⟩ | ⟨call, -, hfails, ⟨e, rfl⟩, -⟩ | ⟨call, rest, hcall, hsucceeds, hrest, -⟩ := sendAll_cons h
    · simp [hdata]
    · simp [hfails]
    · have hdata : p.data.isSome = true := by
        obtain ⟨data, hdata, -⟩ := Option.map_eq_some_iff.mp hcall
        simp [hdata]
      simp [ih hrest, hdata, hsucceeds]

/-- What is sent are the first transactions of the plan, each but the last with success; all of them if it goes through. -/
theorem sendAll_sent (h : sendAll sv submission i ps = some (r, sent)) :
    sent.map some <+: ps.map Planned.call ∧ (∀ j, j + 1 < sent.length → Succeeds sv (submission (i + j))) ∧
      (r = .ok () → sent.map some = ps.map Planned.call) := by
  induction ps generalizing i r sent with
  | nil =>
    cases h
    simp
  | cons p ps ih =>
    obtain ⟨-, ⟨e, rfl⟩, rfl⟩ | ⟨call, hcall, -, ⟨e, rfl⟩, rfl⟩ | ⟨call, rest, hcall, hsucceeds, hrest, rfl⟩ := sendAll_cons h
    · simp
    · simp [hcall]
    · obtain ⟨hfront, hall, hdone⟩ := ih hrest
      refine ⟨by simpa [hcall] using hfront, fun j hj => ?_, fun hr => by simp [hcall, hdone hr]⟩
      cases j with
      | zero => exact hsucceeds
      | succ j =>
        have hnext := hall j (by simpa using hj)
        rwa [Nat.add_assoc, Nat.add_comm 1 j] at hnext

end Plans

/-! ### Plans of the tokens -/

/-- `_SENDER`. -/
def sender : Text := "0xf39Fd6e51aad88F6F4ce6aB8827279cffFb92266".toList

def erc721Sender : Text := "0x90F79bf6EB2c4f870365E785982E1f101E93b906".toList

def erc20E2eSender : Text := "0x9965507D1a55bcC2695C58ba16FB37d819B0A4dc".toList

def erc1155Sender : Text := "0x23618e81E3f5cdF7f54C3d65f7FBc0aBf5B21E8f".toList

def mintData (amount : ℤ) : Option Text := do
  let selector ← fromhex "40c10f19".toList
  let account ← fromhex (erc20E2eSender.drop 2)
  let amount ← toBytes32 amount
  pure (zeroX ++ HexTexts.hexOf (selector ++ rjust32 account ++ amount))

def approveData (portal : Text) (amount : ℤ) : Option Text := do
  let selector ← fromhex "095ea7b3".toList
  let portal ← fromhex (portal.drop 2)
  let amount ← toBytes32 amount
  pure (zeroX ++ HexTexts.hexOf (selector ++ rjust32 portal ++ amount))

def depositData (token app : Text) (amount : ℤ) : Option Text := do
  let selector ← fromhex "21425ee0".toList
  let token ← fromhex (token.drop 2)
  let app ← fromhex (app.drop 2)
  let amount ← toBytes32 amount
  let offset ← toBytes32 128
  let length ← toBytes32 0
  pure (zeroX ++ HexTexts.hexOf (selector ++ rjust32 token ++ rjust32 app ++ amount ++ offset ++ length))

/-- `_deposit_erc20_direct`. -/
def erc20Direct (token portal app : Text) (amount : ℤ) : List Planned :=
  [⟨sender, token, 0, mintData amount⟩, ⟨erc20E2eSender, token, 0, approveData portal amount⟩,
    ⟨erc20E2eSender, portal, 0, depositData token app amount⟩]

/-- `effective_id`. -/
def effectiveId (tokenId monotonicMs : ℤ) : ℤ := tokenId + monotonicMs % 10 ^ 9 * 1000

/-- `_deposit_erc721_direct`. -/
def erc721Direct (token portal app : Text) (effectiveId : ℤ) : List Planned :=
  [⟨erc721Sender, token, 0, abiEncodeErc721Mint erc721Sender effectiveId⟩,
    ⟨erc721Sender, token, 0, abiEncodeSetApprovalForAll portal true⟩,
    ⟨erc721Sender, portal, 0, abiEncodeErc721Deposit token app effectiveId⟩]

/-- The transactions of `_deposit_erc1155_batch`. -/
def erc1155Batch (token portal app : Text) (deposits : List (ℤ × ℤ)) : List Planned :=
  deposits.map (fun d => ⟨erc1155Sender, token, 0, abiEncodeErc1155Mint erc1155Sender d.1 d.2⟩) ++
    ⟨erc1155Sender, token, 0, abiEncodeSetApprovalForAll portal true⟩ ::
      deposits.map fun d => ⟨erc1155Sender, portal, 0, abiEncodeErc1155Deposit token app d.1 d.2⟩

/-- `_deposit_erc1155_direct`. -/
def erc1155Direct (token portal app : Text) (tokenId amount : ℤ) : List Planned :=
  [⟨erc1155Sender, token, 0, abiEncodeErc1155Mint erc1155Sender tokenId amount⟩,
    ⟨erc1155Sender, token, 0, abiEncodeSetApprovalForAll portal true⟩,
    ⟨erc1155Sender, portal, 0, abiEncodeErc1155Deposit token app tokenId amount⟩]

/-- A single deposit is a batch of one. -/
theorem erc1155Direct_eq (token portal app : Text) (tokenId amount : ℤ) :
    erc1155Direct token portal app tokenId amount = erc1155Batch token portal app [(tokenId, amount)] := rfl

/-! ### The executor -/

structure Sandbox where
  nodeMajorVersion : ℤ
  appAddress : Option Text
  etherPortal : Text
  erc20Portal : Text
  erc721Portal : Text
  erc1155Portal : Text
  erc20Token : Option Text
  erc721Token : Option Text
  erc1155Token : Option Text

/-- `x or …`. -/
def given (t : Option Text) : Option Text := t.filter (· ≠ [])

def Sandbox.app (b : Sandbox) : Text := (given b.appAddress).getD "0x0000000000000000000000000000000000000001".toList

/-- What the executor meets. -/
structure Env where
  sandbox : Sandbox
  before : Reply
  code : Except String Json
  submission : ℕ → Submission
  /-- The script of a token without an address: the error it ends with, or the address it tells. -/
  script : Except String (Option Text)
  /-- `int(time.monotonic() * 1000)`. -/
  monotonicMs : ℤ
  deadline : ℚ
  counts : List (ℚ × Reply)

def failed (detail : String) : AssertionResult := ⟨.str "portal_deposit", false, none, none, some detail⟩

def confirmed (expected actual detail : String) : AssertionResult :=
  ⟨.str "portal_deposit", true, some (.json (.str expected)), some (.json (.str actual)), some detail⟩

def shown (n : ℕ) (t : Text) : String := String.ofList (t.take n) ++ "…"

/-- The texts of a kind of token. -/
structure Kind where
  noCode : String
  expected : String
  directFailed : String
  scriptFailed : String
  detail : Text → String

section Executor
variable (sv : Services) (env : Env)

/-- `_get_code(…) == "0x"`. -/
def Env.noCode : Bool :=
  match (do
    let body ← env.code.mapError .exception
    body.get "result" (.str "0x") : Except Err Json) with
  | .ok code => code.isText "0x"
  | .error _ => true

def direct (expected actual failure detail : String) (ps : List Planned) : Option (AssertionResult × List Call) :=
  (sendAll sv env.submission 0 ps).map fun r =>
    (match r.1 with
      | .ok () => confirmed expected actual detail
      | .error e => failed (failure ++ e.text), r.2)

/-- A deposit of tokens: by transactions if there is a plan for them, and by the script otherwise. -/
def depositToken (kind : Kind) (token : Option Text) (plan : Option (List Planned)) (directDetail : String) :
    Option (AssertionResult × List Call) :=
  if env.noCode then some (failed kind.noCode, [])
  else
    match plan with
    | some ps => direct sv env kind.expected "deposit transaction confirmed" kind.directFailed directDetail ps
    | none =>
      match env.script with
      | .error text => some (failed (kind.scriptFailed ++ text), [])
      | .ok deployed =>
        some (confirmed kind.expected "deposit transaction confirmed"
          (kind.detail (((given token).or (given deployed)).getD ['?'])), [])

/-- `_deposit_erc20`. -/
def depositErc20 (useAlt : Bool) (amount : ℤ) : Option (AssertionResult × List Call) :=
  let portal := env.sandbox.erc20Portal
  let app := env.sandbox.app
  let detail (token : Text) := "TestERC20 at " ++ shown 12 token ++ "  mint(" ++ toString amount ++
    ") → approve(ERC20Portal) → depositERC20Tokens(token, app=" ++ shown 10 app ++ ", amount=" ++ toString amount ++ ")"
  depositToken sv env
    ⟨"ERC20Portal has no bytecode at " ++ String.ofList portal, "ERC20 deposit tx status=1",
      "ERC20 direct deposit failed: ", "ERC20 deposit script failed: ", detail⟩
    env.sandbox.erc20Token
    ((given env.sandbox.erc20Token).bind fun token => if useAlt then some (erc20Direct token portal app amount) else none)
    (detail (env.sandbox.erc20Token.getD []))

/-- `_deposit_erc721`. -/
def depositErc721 (tokenId : ℤ) : Option (AssertionResult × List Call) :=
  let portal := env.sandbox.erc721Portal
  let app := env.sandbox.app
  let id := effectiveId tokenId env.monotonicMs
  let detail (id : ℤ) (token : Text) := "TestERC721 at " ++ shown 12 token ++ "  mint(id=" ++ toString id ++
    ") → setApprovalForAll(ERC721Portal) → depositERC721Token(token, app=" ++ shown 10 app ++ ", id=" ++ toString id ++ ")"
  depositToken sv env
    ⟨"ERC721Portal has no bytecode at " ++ String.ofList portal, "ERC721 deposit tx status=1",
      "ERC721 direct deposit failed: ", "ERC721 deposit script failed: ", detail tokenId⟩
    env.sandbox.erc721Token ((given env.sandbox.erc721Token).map fun token => erc721Direct token portal app id)
    (detail id (env.sandbox.erc721Token.getD []))

/-- `_deposit_erc1155`. -/
def depositErc1155 (tokenId amount : ℤ) : Option (AssertionResult × List Call) :=
  let portal := env.sandbox.erc1155Portal
  let app := env.sandbox.app
  let detail (token : Text) := "TestERC1155 at " ++ shown 12 token ++ "  mint(" ++ toString amount ++ "×id=" ++
    toString tokenId ++ ") → setApprovalForAll(ERC1155Portal) → depositSingleERC1155Token(token, app=" ++ shown 10 app ++
    ", id=" ++ toString tokenId ++ ", value=" ++ toString amount ++ ")"
  depositToken sv env
    ⟨"ERC1155SinglePortal has no bytecode at " ++ String.ofList portal, "ERC1155 deposit tx status=1",
      "ERC1155 direct deposit failed: ", "ERC1155 deposit script failed: ", detail⟩
    env.sandbox.erc1155Token ((given env.sandbox.erc1155Token).map fun token => erc1155Direct token portal app tokenId amount)
    (detail (env.sandbox.erc1155Token.getD []))

/-- `[int(x) for x in assertion.get(key, default)]`. -/
def integers (assertion : Json) (key : String) (default : List ℤ) : Except Err (List ℤ) := do
  let j ← assertion.get key (.arr (default.map Json.int))
  (← j.elements).mapM sv.int

/-- `_deposit_erc1155_batch`. -/
def depositErc1155Batch (tokenIds amounts : List ℤ) : Option (AssertionResult × List Call) :=
  let portal := env.sandbox.erc1155Portal
  let app := env.sandbox.app
  if tokenIds.length ≠ amounts.length then
    some (failed "erc1155_batch: token_ids and amounts must have the same length", [])
  else if env.noCode then some (failed ("ERC1155SinglePortal has no bytecode at " ++ String.ofList portal), [])
  else
    match given env.sandbox.erc1155Token with
    | none => some (failed ("erc1155_batch requires a pre-deployed ERC1155 token " ++
        "(erc1155_token_address not set in context)"), [])
    | some token =>
      let deposits := tokenIds.zip amounts
      direct sv env ("ERC1155 batch deposit (" ++ toString tokenIds.length ++ " tokens) via SinglePortal")
        "all deposits confirmed" "erc1155_batch deposit failed: "
        ("Deposited " ++ toString tokenIds.length ++ " token IDs via ERC1155SinglePortal: " ++
          ", ".intercalate (deposits.map fun d => "id=" ++ toString d.1 ++ "×" ++ toString d.2))
        (erc1155Batch token portal app deposits)

def etherResult (amount : ℤ) (hash receipt : Json) : Except Err AssertionResult := do
  let status ← statusOf sv receipt
  let shownHash ← hash.upTo 12
  pure ⟨.str "portal_deposit", status == 1, some (.json (.str "ether deposit tx status=1")),
    some (.json (.str ("tx status=" ++ toString status))),
    some ("EtherPortal.depositEther(app=" ++ shown 10 env.sandbox.app ++ ", 0x) value=" ++ toString amount ++
      " wei → tx=" ++ sv.str shownHash ++ "… status=" ++ toString status)⟩

/-- The calldata for `exec_layer_data`. -/
def etherData (execLayerData : Json) : Option Text :=
  match execLayerData with
  | .str s => abiEncodeDepositEther env.sandbox.app s.toList
  | j => if j.truthy then none else abiEncodeDepositEther env.sandbox.app []

/-- `_deposit_ether`, which raises what the encoder does. -/
def depositEther (execLayerData : Json) (amount : ℤ) : Option (Except Err AssertionResult × List Call) :=
  if env.noCode then
    some (.ok (failed ("EtherPortal has no bytecode at " ++ String.ofList env.sandbox.etherPortal ++
      " — wrong address or not deployed")), [])
  else
    match etherData env execLayerData with
    | none => some (.error (.exception sv.unencodable), [])
    | some data =>
      let sent : List Call := [⟨sender, env.sandbox.etherPortal, amount, data⟩]
      let caught (x : Except Err AssertionResult) : Except Err AssertionResult :=
        match x with
        | .ok r => .ok r
        | .error e => .ok (failed e.text)
      match (do
        let body ← (env.submission 0).send.mapError .exception
        if ← body.has "error" then do
          let e ← body.item "error"
          .error (.exception ("eth_sendTransaction error: " ++ sv.str e))
        else body.get "result" .null : Except Err Json) with
      | .error e => some (caught (.error e), sent)
      | .ok hash => (waitReceipt sv hash (env.submission 0)).map fun receipt =>
          (caught (receipt >>= etherResult sv env amount hash), sent)

/-- The loop that waits until the node has indexed new inputs. Its state is `after_count`. -/
def awaitCount (before : ℤ) : Option (Except Err ℤ) :=
  poll (fun e : ℚ × Reply => decide (env.deadline ≤ e.1))
    (fun _ e =>
      match fetchInputCount e.2 >>= Json.integer with
      | .error err => .leave (.error err)
      | .ok n => if before < n then .leave (.ok n) else .again n)
    .ok before env.counts

def returned (x : Option (AssertionResult × List Call)) : Option (Except AssertionResult AssertionResult × List Call) :=
  x.map fun r => (.ok r.1, r.2)

/-- The deposit of a token type: a result to be framed by the counts, or one that is returned as it is. -/
def deposit (assertion : Json) (tokenType : String) (amount tokenId : ℤ) :
    Option (Except AssertionResult AssertionResult × List Call) :=
  let raised (e : Err) : AssertionResult := failed (sv.describe e)
  if tokenType = "ether" then
    match assertion.get "exec_layer_data" (.str "0x") with
    | .error e => some (.error (raised e), [])
    | .ok execLayerData => (depositEther sv env execLayerData amount).map fun r => (r.1.mapError raised, r.2)
  else if tokenType = "erc20" then
    match assertion.get "use_alt_sender" (.bool false) with
    | .error e => some (.error (raised e), [])
    | .ok useAlt => returned (depositErc20 sv env useAlt.truthy amount)
  else if tokenType = "erc721" then returned (depositErc721 sv env tokenId)
  else if tokenType = "erc1155" then returned (depositErc1155 sv env tokenId amount)
  else if tokenType = "erc1155_batch" then
    match integers sv assertion "token_ids" [1, 2], integers sv assertion "amounts" [100, 100] with
    | .ok tokenIds, .ok amounts => returned (depositErc1155Batch sv env tokenIds amounts)
    | .error e, _ | _, .error e => some (.error (raised e), [])
  else
    some (.error (failed ("Unknown token_type: " ++ sv.repr tokenType ++
      " (expected ether|erc20|erc721|erc1155|erc1155_batch)")), [])

/-- `token_type`, `amount` and `token_id`. -/
def arguments (assertion : Json) : Except Err (String × ℤ × ℤ) := do
  let tokenType ← assertion.get "token_type" (.str "ether")
  let tokenType ← match tokenType with
    | .str s => .ok (Store.lower s)
    | j => .error (j.noAttribute "lower")
  let amount ← assertion.get "amount" (.int (10 ^ 18))
  let amount ← sv.int amount
  let tokenId ← assertion.get "token_id" (.int 1)
  let tokenId ← sv.int tokenId
  pure (tokenType, amount, tokenId)

/-- The results of `PortalDepositExecutor.execute`, when the deposit has ended with `x`. -/
def frame (before : Except Err Json) (x : Except AssertionResult AssertionResult) : Option (Except Err (List AssertionResult)) :=
  match x with
  | .error r => some (.ok [r])
  | .ok r =>
    match before >>= Json.integer with
    | .error e => some (.error e)
    | .ok n =>
      if 0 ≤ n then
        (awaitCount env n).map fun after => after.map fun a => (Report.counted "inputs" n r a true).results
      else some (.ok [r])

/-- `before_count`. -/
def Env.beforeCount : Except Err Json :=
  if 2 ≤ env.sandbox.nodeMajorVersion then fetchInputCount env.before else .ok (.int (-1))

/-- `PortalDepositExecutor.execute`, and the transactions that are sent. -/
def execute (assertion : Json) : Option (Except Err (List AssertionResult) × List Call) :=
  match arguments sv assertion with
  | .error e => some (.error e, [])
  | .ok (tokenType, amount, tokenId) =>
    (deposit sv env assertion tokenType amount tokenId).bind fun r => (frame env env.beforeCount r.1).map fun x => (x, r.2)

/-- The transactions of a deposit, when the token is deployed already. -/
def plan (assertion : Json) : Option (List Planned) :=
  match arguments sv assertion with
  | .error _ => none
  | .ok (tokenType, amount, tokenId) =>
    let b := env.sandbox
    if tokenType = "erc20" then
      match assertion.get "use_alt_sender" (.bool false) with
      | .ok useAlt => if useAlt.truthy then (given b.erc20Token).map fun t => erc20Direct t b.erc20Portal b.app amount else none
      | .error _ => none
    else if tokenType = "erc721" then
      (given b.erc721Token).map fun t => erc721Direct t b.erc721Portal b.app (effectiveId tokenId env.monotonicMs)
    else if tokenType = "erc1155" then
      (given b.erc1155Token).map fun t => erc1155Direct t b.erc1155Portal b.app tokenId amount
    else if tokenType = "erc1155_batch" then
      match integers sv assertion "token_ids" [1, 2], integers sv assertion "amounts" [100, 100] with
      | .ok tokenIds, .ok amounts =>
        if tokenIds.length = amounts.length then
          (given b.erc1155Token).map fun t => erc1155Batch t b.erc1155Portal b.app (tokenIds.zip amounts)
        else none
      | _, _ => none
    else none

end Executor

/-! ### What passes -/

section Passing
variable {sv : Services} {env : Env} {assertion : Json} {ps : List Planned} {sent : List Call}
  {x : Except AssertionResult AssertionResult} {results : List AssertionResult}

/-- The node shows more inputs than before, if it has told their count before. -/
def Indexed (env : Env) : Prop :=
  ∀ n, env.beforeCount = .ok (.int n) → 0 ≤ n → ∃ a, awaitCount env n = some (.ok a) ∧ n < a

theorem direct_passed {expected actual failure detail : String} {r : AssertionResult}
    (h : direct sv env expected actual failure detail ps = some (r, sent)) :
    (r.passed = true ↔ GoesThrough sv env.submission 0 ps) ∧ ∃ y, sendAll sv env.submission 0 ps = some (y, sent) := by
  obtain ⟨⟨y, sent'⟩, hsend, heq⟩ := Option.map_eq_some_iff.mp h
  cases heq
  refine ⟨?_, y, hsend⟩
  rw [← sendAll_ok_iff hsend]
  cases y with
  | ok u => exact iff_of_true rfl rfl
  | error e => exact iff_of_false Bool.false_ne_true nofun

/-- Without a portal nothing is sent, and otherwise the plan is followed. -/
def Follows (sv : Services) (env : Env) (ps : List Planned) (r : AssertionResult) (sent : List Call) : Prop :=
  env.noCode = true ∧ r.passed = false ∧ sent = [] ∨
    env.noCode = false ∧ (r.passed = true ↔ GoesThrough sv env.submission 0 ps) ∧
      ∃ y, sendAll sv env.submission 0 ps = some (y, sent)

theorem depositToken_planned {kind : Kind} {token : Option Text} {detail : String} {r : AssertionResult}
    (h : depositToken sv env kind token (some ps) detail = some (r, sent)) : Follows sv env ps r sent := by
  unfold depositToken at h
  split at h
  next hcode =>
    cases h
    exact Or.inl ⟨hcode, rfl, rfl⟩
  next hcode => exact Or.inr ⟨Bool.eq_false_iff.mpr hcode, direct_passed h⟩

theorem depositErc1155Batch_planned {tokenIds amounts : List ℤ} {token : Text} {r : AssertionResult}
    (hlength : tokenIds.length = amounts.length) (htoken : given env.sandbox.erc1155Token = some token)
    (h : depositErc1155Batch sv env tokenIds amounts = some (r, sent)) :
    Follows sv env (erc1155Batch token env.sandbox.erc1155Portal env.sandbox.app (tokenIds.zip amounts)) r sent := by
  rw [depositErc1155Batch, if_neg (not_not.mpr hlength), htoken] at h
  split at h
  next hcode =>
    cases h
    exact Or.inl ⟨hcode, rfl, rfl⟩
  next hcode => exact Or.inr ⟨Bool.eq_false_iff.mpr hcode, direct_passed h⟩

theorem returned_eq {y : Option (AssertionResult × List Call)} (h : returned y = some (x, sent)) :
    ∃ r, x = .ok r ∧ y = some (r, sent) := by
  obtain ⟨⟨r, sent'⟩, hy, heq⟩ := Option.map_eq_some_iff.mp h
  cases heq
  exact ⟨r, rfl, hy⟩

/-- A deposit with a plan sends nothing without a portal, and otherwise follows the plan. -/
theorem deposit_planned {tokenType : String} {amount tokenId : ℤ} (hargs : arguments sv assertion = .ok (tokenType, amount, tokenId))
    (hplan : plan sv env assertion = some ps) (h : deposit sv env assertion tokenType amount tokenId = some (x, sent)) :
    ∃ r, x = .ok r ∧ Follows sv env ps r sent := by
  rw [plan, hargs] at hplan
  dsimp only at hplan
  unfold deposit at h
  split at hplan
  next htype =>
    rw [if_neg (by simp [htype]), if_pos htype] at h
    cases halt : assertion.get "use_alt_sender" (.bool false) with
    | error e => simp [halt] at hplan
    | ok useAlt =>
      rw [halt] at hplan h
      obtain ⟨huse, hplan⟩ := Option.ite_none_right_eq_some.mp hplan
      obtain ⟨token, htoken, rfl⟩ := Option.map_eq_some_iff.mp hplan
      obtain ⟨r, rfl, hr⟩ := returned_eq h
      rw [depositErc20, htoken, Option.bind_some, if_pos huse] at hr
      exact ⟨r, rfl, depositToken_planned hr⟩
  next h20 =>
  split at hplan
  next htype =>
    rw [if_neg (by simp [htype]), if_neg h20, if_pos htype] at h
    obtain ⟨token, htoken, rfl⟩ := Option.map_eq_some_iff.mp hplan
    obtain ⟨r, rfl, hr⟩ := returned_eq h
    rw [depositErc721, htoken] at hr
    exact ⟨r, rfl, depositToken_planned hr⟩
  next h721 =>
  split at hplan
  next htype =>
    rw [if_neg (by simp [htype]), if_neg h20, if_neg h721, if_pos htype] at h
    obtain ⟨token, htoken, rfl⟩ := Option.map_eq_some_iff.mp hplan
    obtain ⟨r, rfl, hr⟩ := returned_eq h
    rw [depositErc1155, htoken] at hr
    exact ⟨r, rfl, depositToken_planned hr⟩
  next h1155 =>
  split at hplan
  next htype =>
    rw [if_neg (by simp [htype]), if_neg h20, if_neg h721, if_neg h1155, if_pos htype] at h
    split at hplan
    next tokenIds amounts hids hamounts =>
      rw [hids, hamounts] at h
      obtain ⟨hlength, hplan⟩ := Option.ite_none_right_eq_some.mp hplan
      obtain ⟨token, htoken, rfl⟩ := Option.map_eq_some_iff.mp hplan
      obtain ⟨r, rfl, hr⟩ := returned_eq h
      exact ⟨r, rfl, depositErc1155Batch_planned hlength htoken hr⟩
    next => cases hplan
  next => cases hplan

/-- The results pass when the deposit does and the node shows it. -/
theorem frame_passed {r : AssertionResult} (h : frame env env.beforeCount (.ok r) = some (.ok results)) :
    (∀ q ∈ results, q.passed = true) ↔ r.passed = true ∧ Indexed env := by
  obtain ⟨j, hj, hcount⟩ | ⟨e, he⟩ : (∃ j, env.beforeCount = .ok j ∧ (env.beforeCount >>= Json.integer) = j.integer) ∨
      ∃ e, (env.beforeCount >>= Json.integer : Except Err ℤ) = .error e := by
    cases hb : env.beforeCount with
    | error e => exact Or.inr ⟨e, rfl⟩
    | ok j => exact Or.inl ⟨j, rfl, rfl⟩
  · unfold frame at h
    rw [hcount] at h
    cases j with
    | int n =>
      simp only [Json.integer] at h
      split at h
      next hn =>
        obtain ⟨after, hafter, h⟩ := Option.map_eq_some_iff.mp h
        cases after with
        | error e => cases h
        | ok a =>
          cases h
          have hindexed : Indexed env ↔ n < a := by
            constructor
            · intro hin
              obtain ⟨a', ha', hlt⟩ := hin n hj hn
              cases hafter.symm.trans ha'
              exact hlt
            · intro hlt n' hn' _
              cases hj.symm.trans hn'
              exact ⟨a, hafter, hlt⟩
          have hreport : (Report.counted "inputs" n r a true).passed = true ↔ r.passed = true ∧ n < a := by
            rw [Report.passed_counted]
            simp
          rw [hindexed, ← hreport, Report.passed, List.all_eq_true]
      next hn =>
        cases h
        have hindexed : Indexed env := by
          intro n' hn' hpos
          cases hj.symm.trans hn'
          exact absurd hpos hn
        simp [hindexed]
    | _ => cases h
  · unfold frame at h
    rw [he] at h
    cases h

end Passing

/-- The mint succeeds, and the approval reverts. -/
def revertedApproval : Env where
  sandbox := ⟨1, none, [], [], [], addressOne.text, none, none, some addressOne.text⟩
  before := .ok .null
  code := .ok (.obj [("result", .str "0x60")])
  submission i := ⟨.ok (.obj [("result", .str "0xd4")]), 20,
    [⟨1, .ok (.obj [("result", .obj [("status", .str (if i = 0 then "0x1" else "0x0"))])])⟩]⟩
  script := .error ""
  monotonicMs := 0
  deadline := 15
  counts := []

def plainServices : Services where
  int16 s := .ok (if s = "0x1" then 1 else 0)
  int j := j.integer
  str _ := ""
  repr s := s
  describe e := e.text
  unencodable := ""

end ReleaseValidation.TestRunner.PortalDeposits
