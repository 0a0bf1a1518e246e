import ReleaseValidation.Foundations.Clients
import ReleaseValidation.TestRunner.PortalDeposits

/-! # Deposits that share a chain

Deposits may run on one chain at a time. The deposits of a kind of token share the account that
holds the tokens until they go to the portal. ERC-1155 tokens are put in and taken out by amounts,
and an approval stays; an ERC-20 approval replaces the one before it.
-/
namespace ReleaseValidation.TestRunner.SharedChain
open Abi HexTexts Calldata Clients PortalDeposits Runs
open JsonTexts (Text)

variable {σ : Type}

/-- The text is that of a call with the selector and the standard encoding of the arguments. -/
def Spells (t : Option Text) (selector : Bytes) (vs : List Abi.Value) : Prop :=
  ∃ digits, t = some (zeroX ++ digits) ∧ unhex digits = some (selector ++ encode vs)

/-- A transaction of `sender` that calls a function of `recipient`. -/
structure Calls (call : Call) (sender recipient : HexText 20) (selector : Bytes) (vs : List Abi.Value) : Prop where
  sender : call.sender = sender.text
  recipient : call.recipient = recipient.text
  value : call.value = 0
  data : Spells (some call.data) selector vs

/-- The transaction is one of another account. -/
def FromAnother (holder : HexText 20) (call : Call) : Prop :=
  ∃ sender : HexText 20, call.sender = sender.text ∧ sender.value ≠ holder.value

/-- The contracts that a deposit talks to. -/
structure Place where
  token : HexText 20
  portal : HexText 20
  app : HexText 20

/-- A chain executes transactions one after the other, and each of them succeeds or reverts. -/
abbrev Chain (σ : Type) := Machine σ Call

/-- Operations of the deposits beside the transactions of others. -/
def machine {ω : Type} (chain : Chain σ) (planned : ω → Planned) : Machine σ (ω ⊕ Call)
  | s, .inl op =>
    match (planned op).call with
    | some call => chain s call
    | none => (s, false)
  | s, .inr call => chain s call

def otherCall {ω : Type} (holder : HexText 20) : ω ⊕ Call → Prop
  | .inl _ => False
  | .inr call => FromAnother holder call

theorem machine_call {ω : Type} {chain : Chain σ} {planned : ω → Planned} {op : ω} {call : Call} {s : σ}
    (h : (planned op).call = some call) : machine chain planned s (.inl op) = chain s call := by
  rw [machine, h]

/-- A plan whose data can be encoded is one of calls. -/
theorem calls_of_spells {sender recipient : HexText 20} {t : Option Text} {selector : Bytes} {vs : List Abi.Value}
    (h : Spells t selector vs) :
    ∃ call, (⟨sender.text, recipient.text, 0, t⟩ : Planned).call = some call ∧
      Calls call sender recipient selector vs := by
  obtain ⟨digits, rfl, hdigits⟩ := h
  exact ⟨_, rfl, rfl, rfl, rfl, digits, rfl, hdigits⟩

/-- The arguments of a call of the function, if the transaction is one. -/
def argumentsOf (call : Call) (selector : Bytes) (tys : List Ty) : Option (List Abi.Value) :=
  (unhex (call.data.drop 2)).bind fun bs => if bs.take 4 = selector then decode tys (bs.drop 4) else none

theorem Calls.bytes {call : Call} {sender recipient : HexText 20} {selector : Bytes} {vs : List Abi.Value}
    (h : Calls call sender recipient selector vs) : unhex (call.data.drop 2) = some (selector ++ encode vs) := by
  obtain ⟨digits, hdata, hdigits⟩ := h.data
  rw [Option.some.inj hdata]
  exact hdigits

theorem Calls.arguments {call : Call} {sender recipient : HexText 20} {selector : Bytes} {vs : List Abi.Value}
    (h : Calls call sender recipient selector vs) (hselector : selector.length = 4)
    (hfit : (encode vs).length < 2 ^ 256) :
    argumentsOf call selector (vs.map Abi.Value.ty) = some vs := by
  rw [argumentsOf, h.bytes, Option.bind_some, List.take_left' hselector, if_pos rfl, List.drop_left' hselector]
  exact decode_encode hfit

theorem Calls.no_arguments {call : Call} {sender recipient : HexText 20} {selector other : Bytes} {vs : List Abi.Value}
    (h : Calls call sender recipient selector vs) (hselector : selector.length = 4) (hne : selector ≠ other)
    (tys : List Ty) :
    argumentsOf call other tys = none := by
  rw [argumentsOf, h.bytes, Option.bind_some, List.take_left' hselector, if_neg hne]

theorem FromAnother.ne {holder : HexText 20} {call : Call} (h : FromAnother holder call) :
    call.sender ≠ holder.text := by
  obtain ⟨sender, hsender, hne⟩ := h
  intro heq
  rw [hsender] at heq
  have hdigits : sender.digits = holder.digits := List.append_cancel_left heq
  have hbytes := sender.spelled
  rw [hdigits, holder.spelled] at hbytes
  refine hne ?_
  cases hs : sender.value
  cases hh : holder.value
  rw [hs, hh] at hbytes
  cases Option.some.inj hbytes
  rfl

/-! ### ERC-1155 -/

/-- Account #8 of the chain. -/
def erc1155Holder : HexText 20 where
  digits := ['2', '3', '6', '1', '8', 'e', '8', '1', 'E', '3', 'f', '5', 'c', 'd', 'F', '7', 'f', '5', '4', 'C',
    '3', 'd', '6', '5', 'f', '7', 'F', 'B', 'c', '0', 'a', 'B', 'f', '5', 'B', '2', '1', 'E', '8', 'f']
  value := ⟨[0x23, 0x61, 0x8e, 0x81, 0xe3, 0xf5, 0xcd, 0xf7, 0xf5, 0x4c, 0x3d, 0x65, 0xf7, 0xfb, 0xc0, 0xab, 0xf5, 0xb2,
    0x1e, 0x8f], rfl⟩
  spelled := rfl

theorem erc1155Sender_eq : erc1155Sender = erc1155Holder.text := String.toList_ofList

inductive Op1155
  | mint (id amount : BitVec 256)
  | approve
  | deposit (id amount : BitVec 256)
  deriving DecidableEq

def Op1155.planned (x : Place) : Op1155 → Planned
  | mint id amount => ⟨erc1155Sender, x.token.text, 0, abiEncodeErc1155Mint erc1155Sender id.toNat amount.toNat⟩
  | approve => ⟨erc1155Sender, x.token.text, 0, abiEncodeSetApprovalForAll x.portal.text true⟩
  | deposit id amount =>
    ⟨erc1155Sender, x.portal.text, 0, abiEncodeErc1155Deposit x.token.text x.app.text id.toNat amount.toNat⟩

def batch (ds : List (BitVec 256 × BitVec 256)) : List Op1155 :=
  ds.map (fun d => .mint d.1 d.2) ++ .approve :: ds.map fun d => .deposit d.1 d.2

/-- The operations of a batch are those of the executor's plan. -/
theorem planned_batch (x : Place) (ds : List (BitVec 256 × BitVec 256)) :
    erc1155Batch x.token.text x.portal.text x.app.text (ds.map fun d => ((d.1.toNat : ℤ), (d.2.toNat : ℤ))) =
      (batch ds).map (Op1155.planned x) := by
  simp [erc1155Batch, batch, Function.comp_def, Op1155.planned]

/-- An ERC-1155 token and its portal, as far as the deposits of the holder rely on them. -/
structure Erc1155 (chain : Chain σ) (x : Place) where
  /-- `balanceOf(holder, id)` and `balanceOf(app, id)`. -/
  held : σ → BitVec 256 → ℕ
  owned : σ → BitVec 256 → ℕ
  /-- `isApprovedForAll(holder, portal)`. -/
  approved : σ → Prop
  reverted : ∀ s call, (chain s call).2 = false →
    held (chain s call).1 = held s ∧ (approved s → approved (chain s call).1)
  mint : ∀ s call id amount, Calls call erc1155Holder x.token (Function.selector .erc1155Mint)
      [Abi.Value.address erc1155Holder.value, .uint256 id, .uint256 amount] →
    (held s id + amount.toNat < 2 ^ 256 → (chain s call).2 = true) ∧
      ((chain s call).2 = true → held (chain s call).1 = Function.update (held s) id (held s id + amount.toNat) ∧
        (approved s → approved (chain s call).1))
  approve : ∀ s call, Calls call erc1155Holder x.token (Function.selector .setApprovalForAll)
      [Abi.Value.address x.portal.value, .bool true] →
    (chain s call).2 = true ∧ held (chain s call).1 = held s ∧ approved (chain s call).1
  deposit : ∀ s call id amount, Calls call erc1155Holder x.portal (Function.selector .erc1155Deposit)
      [Abi.Value.address x.token.value, .address x.app.value, .uint256 id, .uint256 amount, .bytes [], .bytes []] →
    (approved s → amount.toNat ≤ held s id → owned s id + amount.toNat < 2 ^ 256 → (chain s call).2 = true) ∧
      ((chain s call).2 = true → amount.toNat ≤ held s id ∧
        held (chain s call).1 = Function.update (held s) id (held s id - amount.toNat) ∧
        (approved s → approved (chain s call).1))
  others : ∀ s call, FromAnother erc1155Holder call →
    (∀ id, held s id ≤ held (chain s call).1 id) ∧ (approved s → approved (chain s call).1)

/-- A balance that the operation would raise is as large as it can be. -/
def Overflows {chain : Chain σ} {x : Place} (e : Erc1155 chain x) (s : σ) : Op1155 → Prop
  | .mint id amount => 2 ^ 256 ≤ e.held s id + amount.toNat
  | .approve => False
  | .deposit id amount => 2 ^ 256 ≤ e.owned s id + amount.toNat

section Erc1155
variable {chain : Chain σ} {x : Place}

theorem mint_call (id amount : BitVec 256) : ∃ call, ((Op1155.mint id amount).planned x).call = some call ∧
    Calls call erc1155Holder x.token (Function.selector .erc1155Mint)
      [.address erc1155Holder.value, .uint256 id, .uint256 amount] := by
  rw [Op1155.planned, erc1155Sender_eq]
  exact calls_of_spells (erc1155Mint_encodes erc1155Holder id amount)

theorem approve_call : ∃ call, (Op1155.approve.planned x).call = some call ∧
    Calls call erc1155Holder x.token (Function.selector .setApprovalForAll) [.address x.portal.value, .bool true] := by
  rw [Op1155.planned, erc1155Sender_eq]
  exact calls_of_spells (setApprovalForAll_encodes x.portal true)

theorem deposit_call (id amount : BitVec 256) : ∃ call, ((Op1155.deposit id amount).planned x).call = some call ∧
    Calls call erc1155Holder x.portal (Function.selector .erc1155Deposit)
      [.address x.token.value, .address x.app.value, .uint256 id, .uint256 amount, .bytes [], .bytes []] := by
  rw [Op1155.planned, erc1155Sender_eq]
  exact calls_of_spells (erc1155Deposit_encodes x.token x.app id amount)

/-- What an operation puts into the account of the holder, or takes out of it. -/
def weight (id : BitVec 256) : Op1155 ⊕ Call → ℤ
  | .inl (.mint i amount) => if i = id then amount.toNat else 0
  | .inl (.deposit i amount) => if i = id then -amount.toNat else 0
  | _ => 0

def plans (jobs : List (List (BitVec 256 × BitVec 256))) : List (List (Op1155 ⊕ Call)) :=
  jobs.map fun ds => (batch ds).map Sum.inl

theorem exists_op {jobs : List (List (BitVec 256 × BitVec 256))} {plan : List (Op1155 ⊕ Call)} {k : Op1155 ⊕ Call}
    (hplan : plan ∈ plans jobs) (hk : k ∈ plan) : ∃ op, k = .inl op := by
  obtain ⟨ds, -, rfl⟩ := List.mem_map.mp hplan
  obtain ⟨op, -, rfl⟩ := List.mem_map.mp hk
  exact ⟨op, rfl⟩

/-- The balance of the holder is an account that the operations keep. -/
theorem Erc1155.keeps (e : Erc1155 chain x) (jobs : List (List (BitVec 256 × BitVec 256))) (id : BitVec 256) :
    Keeps (machine chain (Op1155.planned x)) (plans jobs) (otherCall erc1155Holder) (weight id)
      (fun s => (e.held s id : ℤ)) := by
  constructor
  · intro s plan hplan k hk hgranted
    obtain ⟨op, rfl⟩ := exists_op hplan hk
    cases op with
    | mint i amount =>
      obtain ⟨call, hcall, hcalls⟩ := mint_call (x := x) i amount
      rw [machine_call hcall] at hgranted ⊢
      rw [((e.mint s call i amount hcalls).2 hgranted).1, weight]
      by_cases hi : i = id
      · subst hi
        simp
      · simp [hi, Function.update_of_ne (Ne.symm hi)]
    | approve =>
      obtain ⟨call, hcall, hcalls⟩ := approve_call (x := x)
      rw [machine_call hcall, (e.approve s call hcalls).2.1]
      simp [weight]
    | deposit i amount =>
      obtain ⟨call, hcall, hcalls⟩ := deposit_call (x := x) i amount
      rw [machine_call hcall] at hgranted ⊢
      obtain ⟨hle, hheld, -⟩ := (e.deposit s call i amount hcalls).2 hgranted
      rw [hheld, weight]
      by_cases hi : i = id
      · subst hi
        simp
        omega
      · simp [hi, Function.update_of_ne (Ne.symm hi)]
  · intro s plan hplan k hk hrefused
    obtain ⟨op, rfl⟩ := exists_op hplan hk
    cases hcall : (op.planned x).call with
    | none => simp [machine, hcall]
    | some call =>
      rw [machine_call hcall] at hrefused ⊢
      rw [(e.reverted s call hrefused).1]
  · intro s k hk
    cases k with
    | inl op => exact hk.elim
    | inr call => exact_mod_cast (e.others s call hk).1 id

/-- A batch takes out what it has minted. -/
theorem funded_batch (ds : List (BitVec 256 × BitVec 256)) (id : BitVec 256) :
    Funded (weight id) ((batch ds).map Sum.inl) := by
  rw [batch, List.map_append]
  refine funded_append ?_ ?_ ?_
  · intro k hk
    obtain ⟨i, amount, -, rfl⟩ : ∃ i amount, (i, amount) ∈ ds ∧ k = .inl (.mint i amount) := by
      simpa [eq_comm] using hk
    dsimp only [weight]
    split <;> omega
  · intro k hk
    obtain rfl | ⟨i, amount, -, rfl⟩ : k = .inl .approve ∨
        ∃ i amount, (i, amount) ∈ ds ∧ k = .inl (.deposit i amount) := by
      simpa [eq_comm] using hk
    · exact le_rfl
    · dsimp only [weight]
      split <;> omega
  · have hsum : ∀ ds : List (BitVec 256 × BitVec 256), (ds.map fun d => weight id (.inl (.mint d.1 d.2))).sum +
        (ds.map fun d => weight id (.inl (.deposit d.1 d.2))).sum = 0 := by
      intro ds
      rw [← List.sum_map_add]
      apply List.sum_eq_zero
      intro v hv
      obtain ⟨d, -, rfl⟩ := List.mem_map.mp hv
      dsimp only [weight]
      split <;> omega
    have hbatch := hsum ds
    simp only [List.map_append, List.map_map, List.map_cons, List.sum_append, List.sum_cons, Function.comp_def]
    rw [show weight id (.inl .approve) = 0 from rfl]
    omega

/-- A deposit comes after the approval of its batch. -/
theorem approve_mem_of_begins {ds : List (BitVec 256 × BitVec 256)} {done : List Op1155} {id amount : BitVec 256}
    (h : done ++ [.deposit id amount] <+: batch ds) : Op1155.approve ∈ done := by
  obtain ⟨rest, hrest⟩ := h
  rw [batch, List.append_assoc] at hrest
  obtain ⟨left, hmints, hleft⟩ | ⟨taken, rfl, htaken⟩ := List.append_eq_append_iff.mp hrest
  · cases left with
    | nil => simp at hleft
    | cons op left =>
      obtain ⟨rfl, -⟩ := List.cons.inj hleft
      have hmem : Op1155.deposit id amount ∈ ds.map fun d => Op1155.mint d.1 d.2 := by
        rw [hmints]
        simp
      simp at hmem
  · cases taken with
    | nil => simp at htaken
    | cons op taken =>
      obtain ⟨rfl, -⟩ := List.cons.inj htaken
      simp

/-- The approval of the portal stays. -/
theorem Erc1155.keeps_approved (e : Erc1155 chain x) {s : σ} {op : Op1155} (h : e.approved s) :
    e.approved (machine chain (Op1155.planned x) s (.inl op)).1 := by
  cases hcall : (op.planned x).call with
  | none => simpa [machine, hcall] using h
  | some call =>
    rw [machine_call hcall]
    cases hgranted : (chain s call).2 with
    | false => exact (e.reverted s call hgranted).2 h
    | true =>
      cases op with
      | mint id amount =>
        obtain ⟨call', hcall', hcalls⟩ := mint_call (x := x) id amount
        cases hcall.symm.trans hcall'
        exact ((e.mint s call id amount hcalls).2 hgranted).2 h
      | approve =>
        obtain ⟨call', hcall', hcalls⟩ := approve_call (x := x)
        cases hcall.symm.trans hcall'
        exact (e.approve s call hcalls).2.2
      | deposit id amount =>
        obtain ⟨call', hcall', hcalls⟩ := deposit_call (x := x) id amount
        cases hcall.symm.trans hcall'
        exact ((e.deposit s call id amount hcalls).2 hgranted).2.2 h

variable {jobs : List (List (BitVec 256 × BitVec 256))} {s : σ} {w : Clients.World σ (Op1155 ⊕ Call)}
  {as : List (Act (Op1155 ⊕ Call))}

/-- When a deposit is next, its batch has approved the portal. -/
theorem Erc1155.approved_next (e : Erc1155 chain x) (hothers : FromOthers (otherCall erc1155Holder) as)
    (h : exec (step (machine chain (Op1155.planned x))) (start s (plans jobs)) as = some w) {a : Act (Op1155 ⊕ Call)}
    {id amount : BitVec 256} (hop : request w a = some (.inl (.deposit id amount))) : e.approved w.shared := by
  obtain ⟨c, hc, plan, hplan, hfront⟩ := (planned h).request hop
  obtain ⟨ds, -, rfl⟩ := List.mem_map.mp hplan
  obtain ⟨l, hl, hmap⟩ := List.prefix_map_iff.mp hfront
  obtain ⟨done, last, rfl, hdone, hlast⟩ := List.map_eq_append_iff.mp hmap.symm
  obtain ⟨op, rfl, hlast⟩ := List.map_eq_singleton_iff.mp hlast
  cases hlast
  refine established (P := e.approved) (S := fun k => k = .inl .approve) ?_ ?_ ?_ hothers h hc ⟨.inl .approve, ?_, rfl⟩
  · rintro s plan - k - rfl -
    obtain ⟨call, hcall, hcalls⟩ := approve_call (x := x)
    rw [machine_call hcall]
    exact (e.approve s call hcalls).2.2
  · intro s plan hplan k hk happroved
    obtain ⟨op, rfl⟩ := exists_op hplan hk
    exact e.keeps_approved happroved
  · intro s k hk happroved
    cases k with
    | inl op => exact hk.elim
    | inr call => exact (e.others s call hk).2 happroved
  · rw [← hdone]
    exact List.mem_map_of_mem (approve_mem_of_begins hl)

/-- Whatever deposits run at a time, and whatever others do meanwhile, no deposit or approval of
theirs reverts, and a mint does not either, unless a balance overflows. If none does and no
executor gives up, all of them go on until their deposits are made. -/
theorem erc1155_deposits_granted (e : Erc1155 chain x)
    (hothers : FromOthers (otherCall erc1155Holder) as)
    (h : exec (step (machine chain (Op1155.planned x))) (start s (plans jobs)) as = some w) :
    Always (step (machine chain (Op1155.planned x))) (fun w a _ => ∀ op, request w a = some (.inl op) →
        (machine chain (Op1155.planned x) w.shared (.inl op)).2 = true ∨ Overflows e w.shared op)
      (start s (plans jobs)) as ∧
    (Always (step (machine chain (Op1155.planned x))) (fun w a _ => ∀ op, request w a = some (.inl op) →
        ¬ Overflows e w.shared op) (start s (plans jobs)) as → (∀ i, Act.quit i ∉ as) →
      ∀ c ∈ w.clients, c.phase = .running) := by
  have hgranted : Always (step (machine chain (Op1155.planned x))) (fun w a _ => ∀ op, request w a = some (.inl op) →
      (machine chain (Op1155.planned x) w.shared (.inl op)).2 = true ∨ Overflows e w.shared op)
      (start s (plans jobs)) as := by
    refine always_of_forall fun pre a post u t has hu _ op hop => ?_
    have hpre : FromOthers (otherCall erc1155Holder) pre := fun k hk => hothers k (by rw [has]; simp [hk])
    cases op with
    | mint id amount =>
      obtain ⟨call, hcall, hcalls⟩ := mint_call (x := x) id amount
      rw [machine_call hcall, Overflows]
      rcases Nat.lt_or_ge (e.held u.shared id + amount.toNat) (2 ^ 256) with hlt | hge
      · exact Or.inl ((e.mint u.shared call id amount hcalls).1 hlt)
      · exact Or.inr hge
    | approve =>
      obtain ⟨call, hcall, hcalls⟩ := approve_call (x := x)
      rw [machine_call hcall]
      exact Or.inl (e.approve u.shared call hcalls).1
    | deposit id amount =>
      obtain ⟨call, hcall, hcalls⟩ := deposit_call (x := x) id amount
      rw [machine_call hcall, Overflows]
      rcases Nat.lt_or_ge (e.owned u.shared id + amount.toNat) (2 ^ 256) with hlt | hge
      · have hfunded : ∀ plan ∈ plans jobs, Funded (weight id) plan := by
          intro plan hplan
          obtain ⟨ds, -, rfl⟩ := List.mem_map.mp hplan
          exact funded_batch ds id
        have hcovered := covered (e.keeps jobs id) hfunded (Int.natCast_nonneg _) hpre hu hop
        have hle : amount.toNat ≤ e.held u.shared id := by
          simp only [weight, if_true] at hcovered
          omega
        exact Or.inl ((e.deposit u.shared call id amount hcalls).1 (e.approved_next hpre hu hop) hle hlt)
      · exact Or.inr hge
  refine ⟨hgranted, fun hroom hquit => all_running ?_ hquit h⟩
  refine always_of_forall fun pre a post u t has hu ht k hk => ?_
  obtain ⟨c, -, plan, hplan, hfront⟩ := (planned hu).request hk
  obtain ⟨op, rfl⟩ := exists_op hplan (hfront.subset (List.mem_append_right _ (List.mem_singleton.mpr rfl)))
  rw [has] at hgranted hroom
  exact (hgranted.at hu ht op hk).resolve_right (hroom.at hu ht op hk)

end Erc1155

/-- The balances of a token with one holder and one application. -/
structure Balances where
  held : BitVec 256 → ℕ
  owned : BitVec 256 → ℕ
  approved : Bool

/-- The operation of the holder that a transaction is. -/
def read1155 (x : Place) (call : Call) : Option Op1155 :=
  if call.sender = erc1155Holder.text then
    match argumentsOf call (Function.selector .erc1155Mint) [.address, .uint256, .uint256],
      argumentsOf call (Function.selector .setApprovalForAll) [.address, .bool],
      argumentsOf call (Function.selector .erc1155Deposit) [.address, .address, .uint256, .uint256, .bytes, .bytes] with
    | some [_, .uint256 id, .uint256 amount], _, _ =>
      if call.recipient = x.token.text then some (.mint id amount) else none
    | _, some [_, .bool true], _ => if call.recipient = x.token.text then some .approve else none
    | _, _, some [_, _, .uint256 id, .uint256 amount, _, _] =>
      if call.recipient = x.portal.text then some (.deposit id amount) else none
    | _, _, _ => none
  else none

def Balances.apply (b : Balances) : Op1155 → Balances × Bool
  | .mint id amount =>
    if b.held id + amount.toNat < 2 ^ 256 then
      ({ b with held := Function.update b.held id (b.held id + amount.toNat) }, true)
    else (b, false)
  | .approve => ({ b with approved := true }, true)
  | .deposit id amount =>
    if b.approved = true ∧ amount.toNat ≤ b.held id ∧ b.owned id + amount.toNat < 2 ^ 256 then
      (⟨Function.update b.held id (b.held id - amount.toNat), Function.update b.owned id (b.owned id + amount.toNat),
        b.approved⟩, true)
    else (b, false)

/-- A chain with one ERC-1155 token, whose other transactions do not touch the token. -/
def tokenChain (x : Place) : Chain Balances := fun b call =>
  match read1155 x call with
  | some op => b.apply op
  | none => (b, true)

theorem Balances.apply_reverted {b : Balances} {op : Op1155} (h : (b.apply op).2 = false) : (b.apply op).1 = b := by
  cases op with
  | approve => cases h
  | _ =>
    dsimp only [apply] at h ⊢
    split
    next hroom =>
      rw [if_pos hroom] at h
      cases h
    next => rfl

section TokenChain
variable {x : Place} {call : Call}

theorem read_mint {id amount : BitVec 256} (h : Calls call erc1155Holder x.token (Function.selector .erc1155Mint)
    [.address erc1155Holder.value, .uint256 id, .uint256 amount]) : read1155 x call = some (.mint id amount) := by
  have hargs := h.arguments rfl (arguments_fit (.erc1155Mint erc1155Holder id amount))
  simp only [List.map_cons, List.map_nil, Abi.Value.ty] at hargs
  rw [read1155, if_pos h.sender, hargs]
  exact if_pos h.recipient

theorem read_approve (h : Calls call erc1155Holder x.token (Function.selector .setApprovalForAll)
    [.address x.portal.value, .bool true]) : read1155 x call = some .approve := by
  have hargs := h.arguments rfl (arguments_fit (.setApprovalForAll x.portal true))
  simp only [List.map_cons, List.map_nil, Abi.Value.ty] at hargs
  rw [read1155, if_pos h.sender, h.no_arguments rfl (by decide), hargs]
  exact if_pos h.recipient

theorem read_deposit {id amount : BitVec 256} (h : Calls call erc1155Holder x.portal (Function.selector .erc1155Deposit)
    [.address x.token.value, .address x.app.value, .uint256 id, .uint256 amount, .bytes [], .bytes []]) :
    read1155 x call = some (.deposit id amount) := by
  have hargs := h.arguments rfl (arguments_fit (.erc1155Deposit x.token x.app id amount))
  simp only [List.map_cons, List.map_nil, Abi.Value.ty] at hargs
  rw [read1155, if_pos h.sender, h.no_arguments rfl (by decide), h.no_arguments rfl (by decide), hargs]
  exact if_pos h.recipient

/-- The chain has the token and its portal. -/
def tokenChain1155 (x : Place) : Erc1155 (tokenChain x) x where
  held := Balances.held
  owned := Balances.owned
  approved b := b.approved = true
  reverted b call h := by
    unfold tokenChain at h ⊢
    split
    next op hop =>
      rw [hop] at h
      rw [Balances.apply_reverted h]
      exact ⟨rfl, fun happroved => happroved⟩
    next hop =>
      rw [hop] at h
      cases h
  mint b call id amount h := by
    rw [tokenChain, read_mint h]
    dsimp only [Balances.apply]
    split
    next => exact ⟨fun _ => rfl, fun _ => ⟨rfl, fun happroved => happroved⟩⟩
    next hroom => exact ⟨fun hlt => absurd hlt hroom, nofun⟩
  approve b call h := by
    rw [tokenChain, read_approve h]
    exact ⟨rfl, rfl, rfl⟩
  deposit b call id amount h := by
    rw [tokenChain, read_deposit h]
    dsimp only [Balances.apply]
    split
    next hroom => exact ⟨fun _ _ _ => rfl, fun _ => ⟨hroom.2.1, rfl, fun happroved => happroved⟩⟩
    next hroom => exact ⟨fun happroved hle hlt => absurd ⟨happroved, hle, hlt⟩ hroom, nofun⟩
  others b call h := by
    have hread : read1155 x call = none := if_neg h.ne
    rw [tokenChain, hread]
    exact ⟨fun _ => le_rfl, fun happroved => happroved⟩

end TokenChain

/-- The contract at the address `n`, of two digits. -/
def contract (digits : Text) (n : UInt8) (h : unhex digits = some [n]) : HexText 20 where
  digits := List.replicate (2 * 19) '0' ++ digits
  value := ⟨List.replicate 19 0 ++ [n], rfl⟩
  spelled := unhex_append (unhex_zeros 19) h

def devnet : Place := ⟨contract ['a', '1'] 0xa1 rfl, contract ['a', '2'] 0xa2 rfl, contract ['a', '3'] 0xa3 rfl⟩

def emptyBalances : Balances := ⟨fun _ => 0, fun _ => 0, false⟩

/-- Two batches of one deposit each, one step of each in turn. -/
def alternating : List (Act (Op1155 ⊕ Call)) := [.call 0, .call 1, .call 0, .call 1, .call 1, .call 0]

theorem erc1155_deposits_granted_alternating : ∃ w,
    exec (step (machine (tokenChain devnet) (Op1155.planned devnet))) (start emptyBalances (plans [[(1, 5)], [(1, 7)]]))
      alternating = some w ∧
    Always (step (machine (tokenChain devnet) (Op1155.planned devnet)))
      (fun w a _ => ∀ op, request w a = some (.inl op) →
        (machine (tokenChain devnet) (Op1155.planned devnet) w.shared (.inl op)).2 = true ∨
          Overflows (tokenChain1155 devnet) w.shared op) (start emptyBalances (plans [[(1, 5)], [(1, 7)]])) alternating := by
  have hrun : (exec (step (machine (tokenChain devnet) (Op1155.planned devnet)))
      (start emptyBalances (plans [[(1, 5)], [(1, 7)]])) alternating).isSome = true := by decide +kernel
  obtain ⟨w, hrun⟩ := Option.isSome_iff_exists.mp hrun
  have hothers : FromOthers (otherCall erc1155Holder) alternating := by
    intro k hk
    simp [alternating] at hk
  exact ⟨w, hrun, (erc1155_deposits_granted (tokenChain1155 devnet) hothers hrun).1⟩

/-! ### ERC-20 -/

/-- Accounts #5 and #0 of the chain. -/
def erc20Holder : HexText 20 where
  digits := ['9', '9', '6', '5', '5', '0', '7', 'D', '1', 'a', '5', '5', 'b', 'c', 'C', '2', '6', '9', '5', 'C',
    '5', '8', 'b', 'a', '1', '6', 'F', 'B', '3', '7', 'd', '8', '1', '9', 'B', '0', 'A', '4', 'd', 'c']
  value := ⟨[0x99, 0x65, 0x50, 0x7d, 0x1a, 0x55, 0xbc, 0xc2, 0x69, 0x5c, 0x58, 0xba, 0x16, 0xfb, 0x37, 0xd8,
    0x19, 0xb0, 0xa4, 0xdc], rfl⟩
  spelled := rfl

def erc20Owner : HexText 20 where
  digits := ['f', '3', '9', 'F', 'd', '6', 'e', '5', '1', 'a', 'a', 'd', '8', '8', 'F', '6', 'F', '4', 'c', 'e',
    '6', 'a', 'B', '8', '8', '2', '7', '2', '7', '9', 'c', 'f', 'f', 'F', 'b', '9', '2', '2', '6', '6']
  value := ⟨[0xf3, 0x9f, 0xd6, 0xe5, 0x1a, 0xad, 0x88, 0xf6, 0xf4, 0xce, 0x6a, 0xb8, 0x82, 0x72, 0x79, 0xcf,
    0xff, 0xb9, 0x22, 0x66], rfl⟩
  spelled := rfl

theorem erc20E2eSender_eq : erc20E2eSender = erc20Holder.text := String.toList_ofList

theorem sender_eq : sender = erc20Owner.text := String.toList_ofList

inductive Op20
  | mint (amount : BitVec 256)
  | approve (amount : BitVec 256)
  | deposit (amount : BitVec 256)
  deriving DecidableEq

def Op20.planned (x : Place) : Op20 → Planned
  | mint amount => ⟨sender, x.token.text, 0, mintData amount.toNat⟩
  | approve amount => ⟨erc20E2eSender, x.token.text, 0, approveData x.portal.text amount.toNat⟩
  | deposit amount => ⟨erc20E2eSender, x.portal.text, 0, depositData x.token.text x.app.text amount.toNat⟩

def transfer (amount : BitVec 256) : List Op20 := [.mint amount, .approve amount, .deposit amount]

/-- The operations of a deposit are those of the executor's plan. -/
theorem planned_transfer (x : Place) (amount : BitVec 256) :
    erc20Direct x.token.text x.portal.text x.app.text amount.toNat = (transfer amount).map (Op20.planned x) := rfl

def mintSelector : Bytes := [0x40, 0xc1, 0x0f, 0x19]

def approveSelector : Bytes := [0x09, 0x5e, 0xa7, 0xb3]

def depositSelector : Bytes := [0x21, 0x42, 0x5e, 0xe0]

/-- The allowance that is never used up. -/
def infinite : ℕ := 2 ^ 256 - 1

/-- What a deposit leaves of an allowance. -/
def spend (allowance amount : ℕ) : ℕ := if allowance = infinite then allowance else allowance - amount

/-- An ERC-20 token and its portal, as far as the deposits of the holder rely on them. -/
structure Erc20 (chain : Chain σ) (x : Place) where
  /-- `balanceOf(holder)` and `allowance(holder, portal)`. -/
  held : σ → ℕ
  allowance : σ → ℕ
  reverted : ∀ s call, (chain s call).2 = false →
    held (chain s call).1 = held s ∧ allowance (chain s call).1 = allowance s
  mint : ∀ s call amount,
    Calls call erc20Owner x.token mintSelector [Abi.Value.address erc20Holder.value, .uint256 amount] →
    (chain s call).2 = true →
      held (chain s call).1 = held s + amount.toNat ∧ allowance (chain s call).1 = allowance s
  approve : ∀ s call amount,
    Calls call erc20Holder x.token approveSelector [Abi.Value.address x.portal.value, .uint256 amount] →
    (chain s call).2 = true ∧ held (chain s call).1 = held s ∧ allowance (chain s call).1 = amount.toNat
  deposit : ∀ s call amount, Calls call erc20Holder x.portal depositSelector
      [Abi.Value.address x.token.value, .address x.app.value, .uint256 amount, .bytes []] →
    ((chain s call).2 = true ↔ amount.toNat ≤ held s ∧ amount.toNat ≤ allowance s) ∧
      ((chain s call).2 = true → held (chain s call).1 = held s - amount.toNat ∧
        allowance (chain s call).1 = spend (allowance s) amount.toNat)
  others : ∀ s call, FromAnother erc20Holder call →
    held s ≤ held (chain s call).1 ∧ allowance (chain s call).1 = allowance s

section Erc20
variable {chain : Chain σ} {x : Place}

theorem mintData_spells (amount : BitVec 256) :
    Spells (mintData amount.toNat) mintSelector [.address erc20Holder.value, .uint256 amount] := by
  have hselector : fromhex "40c10f19".toList = some mintSelector := by
    rw [String.toList_ofList]
    decide
  refine ⟨_, ?_, unhex_hexOf _⟩
  rw [mintData, hselector, erc20E2eSender_eq, fromhex_text, toBytes32_natCast amount.isLt]
  simp [encode, heads, tails, Value.head, Value.tail, rjust32_address]

theorem approveData_spells (portal : HexText 20) (amount : BitVec 256) :
    Spells (approveData portal.text amount.toNat) approveSelector [.address portal.value, .uint256 amount] := by
  have hselector : fromhex "095ea7b3".toList = some approveSelector := by
    rw [String.toList_ofList]
    decide
  refine ⟨_, ?_, unhex_hexOf _⟩
  rw [approveData, hselector, fromhex_text, toBytes32_natCast amount.isLt]
  simp [encode, heads, tails, Value.head, Value.tail, rjust32_address]

theorem depositData_spells (token app : HexText 20) (amount : BitVec 256) :
    Spells (depositData token.text app.text amount.toNat) depositSelector
      [.address token.value, .address app.value, .uint256 amount, .bytes []] := by
  have hselector : fromhex "21425ee0".toList = some depositSelector := by
    rw [String.toList_ofList]
    decide
  have hoffset : toBytes32 128 = some (word 128) := toBytes32_natCast (n := 128) (by norm_num)
  have hzero : toBytes32 0 = some (word 0) := toBytes32_natCast (n := 0) (by norm_num)
  refine ⟨_, ?_, unhex_hexOf _⟩
  rw [depositData, hselector, fromhex_text, fromhex_text, toBytes32_natCast amount.isLt, hoffset, hzero]
  simp [encode, heads, tails, Value.head, Value.tail, rjust32_address]

theorem mint20_call (amount : BitVec 256) : ∃ call, ((Op20.mint amount).planned x).call = some call ∧
    Calls call erc20Owner x.token mintSelector [.address erc20Holder.value, .uint256 amount] := by
  rw [Op20.planned, sender_eq]
  exact calls_of_spells (mintData_spells amount)

theorem approve20_call (amount : BitVec 256) : ∃ call, ((Op20.approve amount).planned x).call = some call ∧
    Calls call erc20Holder x.token approveSelector [.address x.portal.value, .uint256 amount] := by
  rw [Op20.planned, erc20E2eSender_eq]
  exact calls_of_spells (approveData_spells x.portal amount)

theorem deposit20_call (amount : BitVec 256) : ∃ call, ((Op20.deposit amount).planned x).call = some call ∧
    Calls call erc20Holder x.portal depositSelector
      [.address x.token.value, .address x.app.value, .uint256 amount, .bytes []] := by
  rw [Op20.planned, erc20E2eSender_eq]
  exact calls_of_spells (depositData_spells x.token x.app amount)

def weight20 : Op20 ⊕ Call → ℤ
  | .inl (.mint amount) => amount.toNat
  | .inl (.deposit amount) => -amount.toNat
  | _ => 0

def plans20 (amounts : List (BitVec 256)) : List (List (Op20 ⊕ Call)) :=
  amounts.map fun amount => (transfer amount).map Sum.inl

theorem exists_op20 {amounts : List (BitVec 256)} {plan : List (Op20 ⊕ Call)} {k : Op20 ⊕ Call}
    (hplan : plan ∈ plans20 amounts) (hk : k ∈ plan) : ∃ op, k = .inl op := by
  obtain ⟨amount, -, rfl⟩ := List.mem_map.mp hplan
  obtain ⟨op, -, rfl⟩ := List.mem_map.mp hk
  exact ⟨op, rfl⟩

/-- What an operation makes of the allowance. -/
def Op20.after (allowance : ℕ) : Op20 → ℕ
  | mint _ => allowance
  | approve amount => amount.toNat
  | deposit amount => spend allowance amount.toNat

/-- An operation that is granted has its effect. -/
theorem Erc20.effect (e : Erc20 chain x) {s : σ} {op : Op20}
    (h : (machine chain (Op20.planned x) s (.inl op)).2 = true) :
    (e.held s : ℤ) + weight20 (.inl op) ≤ e.held (machine chain (Op20.planned x) s (.inl op)).1 ∧
      e.allowance (machine chain (Op20.planned x) s (.inl op)).1 = op.after (e.allowance s) := by
  cases op with
  | mint amount =>
    obtain ⟨call, hcall, hcalls⟩ := mint20_call (x := x) amount
    rw [machine_call hcall] at h ⊢
    obtain ⟨hheld, hallowance⟩ := e.mint s call amount hcalls h
    simp [hheld, weight20, hallowance, Op20.after]
  | approve amount =>
    obtain ⟨call, hcall, hcalls⟩ := approve20_call (x := x) amount
    rw [machine_call hcall]
    obtain ⟨-, hheld, hallowance⟩ := e.approve s call amount hcalls
    simp [hheld, weight20, hallowance, Op20.after]
  | deposit amount =>
    obtain ⟨call, hcall, hcalls⟩ := deposit20_call (x := x) amount
    rw [machine_call hcall] at h ⊢
    obtain ⟨hiff, heffect⟩ := e.deposit s call amount hcalls
    obtain ⟨hheld, hallowance⟩ := heffect h
    refine ⟨?_, hallowance⟩
    rw [hheld, weight20]
    have hle := (hiff.mp h).1
    omega

theorem Erc20.no_effect (e : Erc20 chain x) {s : σ} {op : Op20}
    (h : (machine chain (Op20.planned x) s (.inl op)).2 = false) :
    e.held (machine chain (Op20.planned x) s (.inl op)).1 = e.held s ∧
      e.allowance (machine chain (Op20.planned x) s (.inl op)).1 = e.allowance s := by
  cases hcall : (op.planned x).call with
  | none => simp [machine, hcall]
  | some call =>
    rw [machine_call hcall] at h ⊢
    exact e.reverted s call h

theorem Erc20.keeps (e : Erc20 chain x) (amounts : List (BitVec 256)) :
    Keeps (machine chain (Op20.planned x)) (plans20 amounts) (otherCall erc20Holder) weight20
      (fun s => (e.held s : ℤ)) := by
  constructor
  · intro s plan hplan k hk hgranted
    obtain ⟨op, rfl⟩ := exists_op20 hplan hk
    exact (e.effect hgranted).1
  · intro s plan hplan k hk hrefused
    obtain ⟨op, rfl⟩ := exists_op20 hplan hk
    rw [(e.no_effect hrefused).1]
  · intro s k hk
    cases k with
    | inl op => exact hk.elim
    | inr call => exact_mod_cast (e.others s call hk).1

theorem funded_transfer (amount : BitVec 256) : Funded weight20 ((transfer amount).map Sum.inl) :=
  have htakes : Funded weight20 ([Sum.inl (Op20.mint amount)] ++ [.inl (.approve amount), .inl (.deposit amount)]) :=
    funded_append (by simp [weight20]) (by simp [weight20]) (by simp [weight20])
  htakes

/-- The operations granted so far, in their order. -/
def granted (chain : Chain σ) (x : Place) (log : List Op20) (w : Clients.World σ (Op20 ⊕ Call))
    (a : Act (Op20 ⊕ Call)) : List Op20 :=
  match request w a with
  | some (.inl op) => if (machine chain (Op20.planned x) w.shared (.inl op)).2 then log ++ [op] else log
  | _ => log

variable {amounts : List (BitVec 256)} {s : σ} {w : Clients.World σ (Op20 ⊕ Call)} {as : List (Act (Op20 ⊕ Call))}
  {log : List Op20}

/-- The allowance is what the operations granted so far have made of it. -/
theorem allowance_eq (e : Erc20 chain x) (hothers : FromOthers (otherCall erc20Holder) as)
    (h : exec (observed (step (machine chain (Op20.planned x))) (granted chain x)) (start s (plans20 amounts), []) as =
      some (w, log)) : e.allowance w.shared = log.foldl Op20.after (e.allowance s) := by
  have hrun : Always (observed (step (machine chain (Op20.planned x))) (granted chain x))
      (fun _ a _ => ∀ k, a = Act.other k → otherCall erc20Holder k) (start s (plans20 amounts), []) as :=
    hothers.always
  refine (exec_invariant_always (I := fun y : Clients.World σ (Op20 ⊕ Call) × List Op20 =>
    Planned (plans20 amounts) y.1 ∧ e.allowance y.1.shared = y.2.foldl Op20.after (e.allowance s)) ?_
    ⟨planned_start, rfl⟩ hrun h).2
  rintro ⟨u, l⟩ a ⟨v, l'⟩ ⟨hplanned, hI⟩ hobserved hQ
  obtain ⟨_, hstep, heq⟩ := Option.map_eq_some_iff.mp hobserved
  cases heq
  refine ⟨hplanned.next hstep, ?_⟩
  obtain ⟨i, c, k, ks, next, hc, htodo, hserves, rfl⟩ | ⟨i, c, rfl, -, rfl⟩ | ⟨k, rfl, rfl⟩ := step_cases hstep
  · obtain ⟨op, rfl⟩ := exists_op20 (List.mem_of_getElem? (hplanned i c hc)) (k := k) (by simp [htodo])
    have hrequest : request u a = some (.inl op) := by
      rw [hserves.request hc, htodo]
      rfl
    rw [granted, hrequest]
    dsimp only at hI ⊢
    cases hgranted : (machine chain (Op20.planned x) u.shared (.inl op)).2 with
    | true => rw [if_pos rfl, List.foldl_append, ← hI, (e.effect hgranted).2, List.foldl_cons, List.foldl_nil]
    | false => rw [if_neg Bool.false_ne_true, ← hI, (e.no_effect hgranted).2]
  · exact hI
  · cases k with
    | inl op => exact (hQ _ rfl).elim
    | inr call => exact (e.others u.shared call (hQ _ rfl)).2.trans hI

/-- Whatever deposits run at a time, and whatever others do meanwhile, a deposit is granted if and only if its
amount is left of the latest approval, of whichever deposit that was. -/
theorem erc20_deposit_granted_iff (e : Erc20 chain x) (hothers : FromOthers (otherCall erc20Holder) as)
    (h : exec (observed (step (machine chain (Op20.planned x))) (granted chain x)) (start s (plans20 amounts), []) as =
      some (w, log)) {a : Act (Op20 ⊕ Call)} {amount : BitVec 256} (hop : request w a = some (.inl (.deposit amount))) :
    (machine chain (Op20.planned x) w.shared (.inl (.deposit amount))).2 = true ↔
      amount.toNat ≤ log.foldl Op20.after (e.allowance s) := by
  have hfunded : ∀ plan ∈ plans20 amounts, Funded weight20 plan := by
    intro plan hplan
    obtain ⟨amount, -, rfl⟩ := List.mem_map.mp hplan
    exact funded_transfer amount
  have hcovered := covered (e.keeps amounts) hfunded (Int.natCast_nonneg _) hothers (exec_of_observed h) hop
  have hle : amount.toNat ≤ e.held w.shared := by
    simp only [weight20] at hcovered
    omega
  obtain ⟨call, hcall, hcalls⟩ := deposit20_call (x := x) amount
  rw [machine_call hcall, (e.deposit w.shared call amount hcalls).1, allowance_eq e hothers h]
  exact and_iff_right hle

end Erc20

structure Allowance where
  held : ℕ
  allowance : ℕ

/-- The operation of the deposits that a transaction is. -/
def read20 (x : Place) (call : Call) : Option Op20 :=
  match argumentsOf call mintSelector [.address, .uint256], argumentsOf call approveSelector [.address, .uint256],
    argumentsOf call depositSelector [.address, .address, .uint256, .bytes] with
  | some [_, .uint256 amount], _, _ =>
    if call.sender = erc20Owner.text ∧ call.recipient = x.token.text then some (.mint amount) else none
  | _, some [_, .uint256 amount], _ =>
    if call.sender = erc20Holder.text ∧ call.recipient = x.token.text then some (.approve amount) else none
  | _, _, some [_, _, .uint256 amount, _] =>
    if call.sender = erc20Holder.text ∧ call.recipient = x.portal.text then some (.deposit amount) else none
  | _, _, _ => none

def Allowance.apply (b : Allowance) : Op20 → Allowance × Bool
  | .mint amount =>
    if b.held + amount.toNat < 2 ^ 256 then ({ b with held := b.held + amount.toNat }, true) else (b, false)
  | .approve amount => ({ b with allowance := amount.toNat }, true)
  | .deposit amount =>
    if amount.toNat ≤ b.held ∧ amount.toNat ≤ b.allowance then
      (⟨b.held - amount.toNat, spend b.allowance amount.toNat⟩, true)
    else (b, false)

/-- A chain with one ERC-20 token, whose other transactions do not touch the token. -/
def tokenChain20 (x : Place) : Chain Allowance := fun b call =>
  match read20 x call with
  | some op => b.apply op
  | none => (b, true)

theorem Allowance.apply_reverted {b : Allowance} {op : Op20} (h : (b.apply op).2 = false) : (b.apply op).1 = b := by
  cases op with
  | approve => cases h
  | _ =>
    dsimp only [apply] at h ⊢
    split
    next hroom =>
      rw [if_pos hroom] at h
      cases h
    next => rfl

section TokenChain20
variable {x : Place} {call : Call} {amount : BitVec 256}

theorem read20_mint (h : Calls call erc20Owner x.token mintSelector [.address erc20Holder.value, .uint256 amount]) :
    read20 x call = some (.mint amount) := by
  have hargs := h.arguments rfl (by simp [encode, length_heads, tails, Abi.Value.tail])
  simp only [List.map_cons, List.map_nil, Abi.Value.ty] at hargs
  rw [read20, hargs]
  exact if_pos ⟨h.sender, h.recipient⟩

theorem read20_approve (h : Calls call erc20Holder x.token approveSelector [.address x.portal.value, .uint256 amount]) :
    read20 x call = some (.approve amount) := by
  have hargs := h.arguments rfl (by simp [encode, length_heads, tails, Abi.Value.tail])
  simp only [List.map_cons, List.map_nil, Abi.Value.ty] at hargs
  rw [read20, h.no_arguments rfl (by decide), hargs]
  exact if_pos ⟨h.sender, h.recipient⟩

theorem read20_deposit (h : Calls call erc20Holder x.portal depositSelector
    [.address x.token.value, .address x.app.value, .uint256 amount, .bytes []]) :
    read20 x call = some (.deposit amount) := by
  have hargs := h.arguments rfl (by simp [encode, length_heads, tails, Abi.Value.tail])
  simp only [List.map_cons, List.map_nil, Abi.Value.ty] at hargs
  rw [read20, h.no_arguments rfl (by decide), h.no_arguments rfl (by decide), hargs]
  exact if_pos ⟨h.sender, h.recipient⟩

/-- What another account can do to the token is to mint. -/
theorem read20_another (h : FromAnother erc20Holder call) {op : Op20} (hop : read20 x call = some op) :
    ∃ amount, op = .mint amount := by
  unfold read20 at hop
  split at hop
  next =>
    obtain ⟨-, hop⟩ := Option.ite_none_right_eq_some.mp hop
    exact ⟨_, (Option.some.inj hop).symm⟩
  next =>
    obtain ⟨hsender, -⟩ := Option.ite_none_right_eq_some.mp hop
    exact absurd hsender.1 h.ne
  next =>
    obtain ⟨hsender, -⟩ := Option.ite_none_right_eq_some.mp hop
    exact absurd hsender.1 h.ne
  next => cases hop

/-- The chain has the token and its portal. -/
def tokenChainErc20 (x : Place) : Erc20 (tokenChain20 x) x where
  held := Allowance.held
  allowance := Allowance.allowance
  reverted b call h := by
    unfold tokenChain20 at h ⊢
    split
    next op hop =>
      rw [hop] at h
      rw [Allowance.apply_reverted h]
      exact ⟨rfl, rfl⟩
    next hop =>
      rw [hop] at h
      cases h
  mint b call amount h := by
    rw [tokenChain20, read20_mint h]
    dsimp only [Allowance.apply]
    split
    next => exact fun _ => ⟨rfl, rfl⟩
    next => exact nofun
  approve b call amount h := by
    rw [tokenChain20, read20_approve h]
    exact ⟨rfl, rfl, rfl⟩
  deposit b call amount h := by
    rw [tokenChain20, read20_deposit h]
    dsimp only [Allowance.apply]
    split
    next hroom => exact ⟨iff_of_true rfl hroom, fun _ => ⟨rfl, rfl⟩⟩
    next hroom => exact ⟨iff_of_false Bool.false_ne_true hroom, nofun⟩
  others b call h := by
    unfold tokenChain20
    split
    next op hop =>
      obtain ⟨amount, rfl⟩ := read20_another h hop
      dsimp only [Allowance.apply]
      split
      next => exact ⟨Nat.le_add_right _ _, rfl⟩
      next => exact ⟨le_rfl, rfl⟩
    next => exact ⟨le_rfl, rfl⟩

end TokenChain20

/-- Deposits of 5 and 7, each approved before either is made. -/
def overlapping : List (Act (Op20 ⊕ Call)) := [.call 0, .call 1, .call 0, .call 1, .call 0]

/-- The second deposit finds what the first has left of its approval. -/
theorem erc20_deposit_granted_iff_overlapping : ∃ w log,
    exec (observed (step (machine (tokenChain20 devnet) (Op20.planned devnet))) (granted (tokenChain20 devnet) devnet))
      (start ⟨0, 0⟩ (plans20 [5, 7]), []) overlapping = some (w, log) ∧
    log = [.mint 5, .mint 7, .approve 5, .approve 7, .deposit 5] ∧ request w (.call 1) = some (.inl (.deposit 7)) ∧
    (machine (tokenChain20 devnet) (Op20.planned devnet) w.shared (.inl (.deposit 7))).2 = false := by
  have hrun : (exec (observed (step (machine (tokenChain20 devnet) (Op20.planned devnet)))
      (granted (tokenChain20 devnet) devnet)) (start ⟨0, 0⟩ (plans20 [5, 7]), []) overlapping).map (fun y =>
        (y.2, request y.1 (.call 1))) =
      some ([.mint 5, .mint 7, .approve 5, .approve 7, .deposit 5], some (.inl (.deposit 7))) := by decide +kernel
  obtain ⟨⟨w, log⟩, hexec, heq⟩ := Option.map_eq_some_iff.mp hrun
  obtain ⟨hlog, hrequest⟩ := Prod.mk.inj heq
  dsimp only at hlog hrequest
  subst hlog
  have hothers : FromOthers (otherCall erc20Holder) overlapping := by
    intro k hk
    simp [overlapping] at hk
  have hiff := erc20_deposit_granted_iff (tokenChainErc20 devnet) hothers hexec hrequest
  refine ⟨w, _, hexec, rfl, hrequest, Bool.eq_false_iff.mpr fun h => ?_⟩
  exact absurd (hiff.mp h) (by decide)

end ReleaseValidation.TestRunner.SharedChain
