import Mathlib.Data.List.TakeWhile
import Mathlib.Tactic.NormNum
import ReleaseValidation.TestRunner.Calldata

/-! # The calldata decodes to the arguments

Every encoder writes its selector and the encoding of its arguments, whatever zeros the
addresses, hashes and numbers start with. The data of an Ether deposit is read as digits, with or
without `0x`; only the payload of an input may be plain text.
-/
namespace ReleaseValidation.TestRunner.Calldata
open Abi HexTexts
open JsonTexts (Text hexDigit hexDigit_digitChar)

/-- The text is the calldata of a call: a selector of four bytes, then words that decode to the arguments. -/
def RoundTrips (tx : Transaction) : Prop :=
  ∃ digits data, tx.calldata = some (zeroX ++ digits) ∧ unhex digits = some (tx.function.selector ++ data) ∧
    tx.function.selector.length = 4 ∧ 32 ∣ data.length ∧ decode tx.function.signature data = some tx.arguments

/-- The data of an Ether deposit is given in digits after `0x`, or it is empty. -/
def Transaction.DataInDigits : Transaction → Prop
  | depositEther _ execLayerData => zeroX.isPrefixOf execLayerData.text = true ∨ execLayerData.text = []
  | _ => True

/-- The text is that of the call with the standard encoding of its arguments. -/
def Encodes (t : Option Text) (f : Function) (vs : List Value) : Prop :=
  ∃ digits, t = some (zeroX ++ digits) ∧ unhex digits = some (f.selector ++ encode vs)

/-! ### Texts of digits -/

theorem hexDigit_plain {c : Char} (h : (hexDigit c).isSome = true) :
    c ≠ '+' ∧ c ≠ '-' ∧ c ≠ 'x' ∧ c ≠ ' ' ∧ isAsciiSpace c = false := by
  obtain ⟨x, hx⟩ := Option.isSome_iff_exists.mp h
  exact hexDigit_induction (P := fun c _ => c ≠ '+' ∧ c ≠ '-' ∧ c ≠ 'x' ∧ c ≠ ' ' ∧ isAsciiSpace c = false) (by decide) hx

theorem zfill_digits {t : Text} (h : ∀ c ∈ t, (hexDigit c).isSome = true) (width : ℕ) :
    zfill width t = List.replicate (width - t.length) '0' ++ t := by
  cases t with
  | nil => exact (List.append_nil _).symm
  | cons c r =>
    obtain ⟨hplus, hminus, -⟩ := hexDigit_plain (h c List.mem_cons_self)
    exact if_neg (not_or.mpr ⟨hplus, hminus⟩)

theorem removePrefix_digits {t : Text} (h : ∀ c ∈ t, (hexDigit c).isSome = true) : removePrefix t = t := by
  refine if_neg fun hprefix => ?_
  obtain ⟨r, rfl⟩ := List.isPrefixOf_iff_prefix.mp hprefix
  exact (hexDigit_plain (h 'x' (by simp [zeroX]))).2.2.1 rfl

theorem removePrefix_zeroX (t : Text) : removePrefix (zeroX ++ t) = t :=
  if_pos (List.isPrefixOf_iff_prefix.mpr (List.prefix_append zeroX t))

theorem lower_zeroX (t : Text) : lower (zeroX ++ t) = zeroX ++ lower t := rfl

/-- Digits filled up with zeros spell their bytes after bytes of zero. -/
theorem unhex_zfill {t : Text} {bs : Bytes} (h : unhex t = some bs) (k : ℕ) :
    unhex (zfill (2 * k) t) = some (List.replicate (k - bs.length) 0 ++ bs) := by
  have hlen : 2 * k - t.length = 2 * (k - bs.length) := by
    rw [unhex_length h]
    omega
  rw [zfill_digits (unhex_digits h), hlen]
  exact unhex_append (unhex_zeros _) h

theorem hex_natCast (n : ℕ) : (hex (n : ℤ)).drop 2 = Nat.toDigits 16 n := rfl

theorem unhex_zfill_number {n : ℕ} (h : n < 2 ^ 256) : unhex (zfill 64 (Nat.toDigits 16 n)) = some (word n) := by
  rw [zfill_digits (digits_toDigits n)]
  exact unhex_number (k := 32) (by decide) (h.trans_le (by norm_num))

theorem unhex_pad32_number {n : ℕ} (h : n < 2 ^ 256) : unhex (pad32 (Nat.toDigits 16 n)) = some (word n) := by
  rw [pad32, lower, toLower_toDigits, removePrefix_digits (digits_toDigits n)]
  exact unhex_zfill_number h

theorem fromhex_of_unhex {t : Text} {bs : Bytes} (h : unhex t = some bs) : fromhex t = some bs := by
  induction t using unhex.induct generalizing bs with
  | case1 => exact h
  | case2 c => cases h
  | case3 c d t ih =>
    obtain ⟨x, y, bs', hx, hy, hbs', rfl⟩ := unhex_cons_cons.mp h
    have hspace := (hexDigit_plain (Option.isSome_iff_exists.mpr ⟨x, hx⟩)).2.2.2.2
    rw [fromhex, if_neg (by rw [hspace]; decide), hx, hy, ih hbs']
    rfl

/-- Stripping zeros off digits and filling them up again leaves the digits. -/
theorem zfill_lstrip {t : Text} {bs : Bytes} (h : unhex t = some bs) {width : ℕ} (hwidth : t.length ≤ width) :
    zfill width (lstrip (zeroX ++ t)) = zfill width t := by
  have hdigits := unhex_digits h
  have hstrip : lstrip (zeroX ++ t) = t.dropWhile fun c => c = '0' ∨ c = 'x' := rfl
  have hsplit := List.takeWhile_append_dropWhile (p := fun c => c = '0' ∨ c = 'x') (l := t)
  have hzeros : (t.takeWhile fun c => c = '0' ∨ c = 'x') =
      List.replicate (t.takeWhile fun c => c = '0' ∨ c = 'x').length '0' := by
    refine List.eq_replicate_iff.mpr ⟨rfl, fun c hc => ?_⟩
    have hx := (hexDigit_plain (hdigits c (List.takeWhile_subset _ hc))).2.2.1
    exact (of_decide_eq_true (List.all_eq_true.mp List.all_takeWhile c hc)).resolve_right hx
  rw [hstrip, zfill_digits hdigits, zfill_digits fun c hc => hdigits c (List.dropWhile_subset _ hc)]
  generalize (t.takeWhile fun c => c = '0' ∨ c = 'x').length = j at hzeros
  generalize (t.dropWhile fun c => c = '0' ∨ c = 'x') = r at hsplit
  rw [hzeros] at hsplit
  subst hsplit
  rw [List.length_append, List.length_replicate] at hwidth ⊢
  rw [← List.append_assoc, List.replicate_append_replicate]
  congr 2
  omega

/-! ### The words of the arguments -/

theorem unhex_pad32 {n : ℕ} (h : HexText n) : unhex (pad32 h.text) = some (List.replicate (32 - n) 0 ++ h.value.bytes) := by
  have hlower := unhex_zfill (unhex_toLower h.spelled) 32
  rw [h.value.length_eq] at hlower
  rw [pad32, HexText.text, lower_zeroX, removePrefix_zeroX]
  exact hlower

theorem unhex_zfill_lstrip {t : Text} {bs : Bytes} (h : unhex t = some bs) (hle : bs.length ≤ 32) :
    unhex (zfill 64 (lstrip (zeroX ++ t))) = some (List.replicate (32 - bs.length) 0 ++ bs) := by
  have hlen := unhex_length h
  rw [zfill_lstrip h (by omega)]
  exact unhex_zfill h 32

theorem fromhex_text {n : ℕ} (h : HexText n) : fromhex (h.text.drop 2) = some h.value.bytes :=
  fromhex_of_unhex h.spelled

theorem rjust32_address (a : FixedBytes 20) : rjust32 a.bytes = List.replicate 12 0 ++ a.bytes := by
  rw [rjust32, a.length_eq]

theorem toBytes32_natCast {n : ℕ} (h : n < 2 ^ 256) : toBytes32 (n : ℤ) = some (word n) := by
  have hn : (0 : ℤ) ≤ n ∧ (n : ℤ) < 2 ^ 256 := ⟨Int.natCast_nonneg n, by exact_mod_cast h⟩
  rw [toBytes32, if_pos hn, Int.toNat_natCast]
  rfl

theorem encode_dynamic (a : FixedBytes 20) (b : Bytes) :
    encode [.address a, .bytes b] = List.replicate 12 0 ++ a.bytes ++ word 64 ++ word b.length ++ padded b := by
  simp [encode, heads, tails, Value.head, Value.tail]

/-! ### The encoders -/

theorem erc721Mint_encodes (account : HexText 20) (tokenId : BitVec 256) :
    Encodes (abiEncodeErc721Mint account.text tokenId.toNat) .erc721Mint [.address account.value, .uint256 tokenId] := by
  have hselector : fromhex "40c10f19".toList = some (Function.selector .erc721Mint) := by
    rw [String.toList_ofList]
    decide
  refine ⟨_, ?_, unhex_hexOf _⟩
  rw [abiEncodeErc721Mint, hselector, fromhex_text, toBytes32_natCast tokenId.isLt]
  simp [encode, heads, tails, Value.head, Value.tail, rjust32_address]

theorem erc1155Mint_encodes (account : HexText 20) (tokenId amount : BitVec 256) :
    Encodes (abiEncodeErc1155Mint account.text tokenId.toNat amount.toNat) .erc1155Mint
      [.address account.value, .uint256 tokenId, .uint256 amount] := by
  have hselector : fromhex "156e29f6".toList = some (Function.selector .erc1155Mint) := by
    rw [String.toList_ofList]
    decide
  refine ⟨_, ?_, unhex_hexOf _⟩
  rw [abiEncodeErc1155Mint, hselector, fromhex_text, toBytes32_natCast tokenId.isLt, toBytes32_natCast amount.isLt]
  simp [encode, heads, tails, Value.head, Value.tail, rjust32_address]

theorem setApprovalForAll_encodes (operator : HexText 20) (approved : Bool) :
    Encodes (abiEncodeSetApprovalForAll operator.text approved) .setApprovalForAll
      [.address operator.value, .bool approved] := by
  have hselector : fromhex "a22cb465".toList = some (Function.selector .setApprovalForAll) := by
    rw [String.toList_ofList]
    decide
  have happroved : approved.toNat < 2 ^ 256 := (Bool.toNat_lt approved).trans (by norm_num)
  refine ⟨_, ?_, unhex_hexOf _⟩
  rw [abiEncodeSetApprovalForAll, hselector, fromhex_text, toBytes32_natCast happroved]
  simp [encode, heads, tails, Value.head, Value.tail, rjust32_address]

theorem erc721Deposit_encodes (token app : HexText 20) (tokenId : BitVec 256) :
    Encodes (abiEncodeErc721Deposit token.text app.text tokenId.toNat) .erc721Deposit
      [.address token.value, .address app.value, .uint256 tokenId, .bytes [], .bytes []] := by
  have hselector : fromhex "28911e83".toList = some (Function.selector .erc721Deposit) := by
    rw [String.toList_ofList]
    decide
  have hbase : toBytes32 160 = some (word 160) := toBytes32_natCast (n := 160) (by norm_num)
  have hexec : toBytes32 192 = some (word 192) := toBytes32_natCast (n := 192) (by norm_num)
  have hzero : toBytes32 0 = some (word 0) := toBytes32_natCast (n := 0) (by norm_num)
  refine ⟨_, ?_, unhex_hexOf _⟩
  rw [abiEncodeErc721Deposit, hselector, fromhex_text, fromhex_text, toBytes32_natCast tokenId.isLt, hbase, hexec, hzero]
  simp [encode, heads, tails, Value.head, Value.tail, rjust32_address]

theorem erc1155Deposit_encodes (token app : HexText 20) (tokenId amount : BitVec 256) :
    Encodes (abiEncodeErc1155Deposit token.text app.text tokenId.toNat amount.toNat) .erc1155Deposit
      [.address token.value, .address app.value, .uint256 tokenId, .uint256 amount, .bytes [], .bytes []] := by
  have hselector : fromhex "dec07dca".toList = some (Function.selector .erc1155Deposit) := by
    rw [String.toList_ofList]
    decide
  have hbase : toBytes32 192 = some (word 192) := toBytes32_natCast (n := 192) (by norm_num)
  have hexec : toBytes32 224 = some (word 224) := toBytes32_natCast (n := 224) (by norm_num)
  have hzero : toBytes32 0 = some (word 0) := toBytes32_natCast (n := 0) (by norm_num)
  refine ⟨_, ?_, unhex_hexOf _⟩
  rw [abiEncodeErc1155Deposit, hselector, fromhex_text, fromhex_text, toBytes32_natCast tokenId.isLt,
    toBytes32_natCast amount.isLt, hbase, hexec, hzero]
  simp [encode, heads, tails, Value.head, Value.tail, rjust32_address]

theorem submitClaim_encodes (app : HexText 20) (lastBlock : BitVec 256) (claimHash : HexText 32) :
    Encodes (some (submitClaim app.text lastBlock.toNat claimHash.text)) .submitClaim
      [.address app.value, .uint256 lastBlock, .bytes32 claimHash.value] := by
  have hselector : unhex "6470af00".toList = some (Function.selector .submitClaim) := by
    rw [String.toList_ofList]
    decide
  have happ := unhex_zfill_lstrip (unhex_toLower app.spelled) (by rw [app.value.length_eq]; decide)
  have hhash := unhex_zfill_lstrip claimHash.spelled (by rw [claimHash.value.length_eq])
  rw [app.value.length_eq] at happ
  rw [claimHash.value.length_eq] at hhash
  refine ⟨_, rfl, ?_⟩
  rw [HexText.text, HexText.text, lower_zeroX, hex_natCast]
  refine (unhex_append (unhex_append (unhex_append hselector happ) (unhex_zfill_number lastBlock.isLt)) hhash).trans ?_
  simp [encode, heads, tails, Value.head, Value.tail]

/-! ### Payloads -/

theorem utf8_length_le (s : Text) : (utf8 s).length ≤ 4 * s.length := by
  induction s with
  | nil => exact Nat.le_refl 0
  | cons c s ih =>
    have hc := Char.utf8Size_le_four c
    rw [utf8] at ih ⊢
    rw [List.flatMap_cons, List.length_append, String.length_utf8EncodeChar, List.length_cons]
    omega

theorem Means.length_le {t : Text} {bs : Bytes} (h : Means t bs) : bs.length ≤ 4 * t.length := by
  cases h with
  | hex hdigits =>
    rw [List.length_append, unhex_length hdigits]
    omega
  | plain _ => exact utf8_length_le t

theorem Payload.length_lt (p : Payload) : p.bytes.length < 2 ^ 65 := by
  have hle := p.means.length_le
  have hlt := p.bounded
  omega

/-- The payload of an input is turned into digits for the bytes it stands for. -/
theorem chainPayload_spelled {t : Text} {bs : Bytes} (h : Means t bs) :
    ∃ digits, chainPayload t = zeroX ++ digits ∧ unhex digits = some bs := by
  cases h with
  | hex hdigits =>
    exact ⟨_, if_pos (List.isPrefixOf_iff_prefix.mpr (List.prefix_append zeroX _)), hdigits⟩
  | plain hplain => exact ⟨_, if_neg (by rw [hplain]; decide), unhex_hexOf _⟩

theorem unhex_ljust {t : Text} {bs : Bytes} (h : unhex t = some bs) :
    unhex (ljust ((bs.length + 31) / 32 * 32 * 2) t) = some (padded bs) := by
  have hlen : (bs.length + 31) / 32 * 32 * 2 - t.length = 2 * ((32 - bs.length % 32) % 32) := by
    rw [unhex_length h]
    omega
  rw [ljust, hlen]
  exact unhex_append h (unhex_zeros _)

theorem addInput_encodes (app : HexText 20) (payload : Payload) :
    Encodes (some (abiEncodeAddInput app.text (chainPayload payload.text))) .addInput
      [.address app.value, .bytes payload.bytes] := by
  have hselector : unhex "1789cd63".toList = some (Function.selector .addInput) := by
    rw [String.toList_ofList]
    decide
  have hoffset : unhex "0000000000000000000000000000000000000000000000000000000000000040".toList = some (word 64) := by
    rw [String.toList_ofList]
    exact unhex_zfill_number (n := 64) (by norm_num)
  have hlt : payload.bytes.length < 2 ^ 256 := payload.length_lt.trans (by norm_num)
  obtain ⟨digits, hdigits, hspelled⟩ := chainPayload_spelled payload.means
  have hlower := unhex_toLower hspelled
  have hraw : (removePrefix (lower (zeroX ++ digits))).filter (· ≠ ' ') = digits.map Char.toLower := by
    rw [lower_zeroX, removePrefix_zeroX]
    exact List.filter_eq_self.mpr fun c hc => decide_eq_true (hexDigit_plain (unhex_digits hlower c hc)).2.2.2.1
  have hlength : (digits.map Char.toLower).length / 2 = payload.bytes.length := by
    rw [unhex_length hlower]
    omega
  refine ⟨_, rfl, ?_⟩
  rw [hdigits, hraw, hlength, hex_natCast, encode_dynamic]
  refine (unhex_append (unhex_append (unhex_append (unhex_append hselector (unhex_pad32 app)) hoffset)
    (unhex_zfill_number hlt)) (unhex_ljust hlower)).trans ?_
  simp only [List.append_assoc]

/-- Digits after `0x`, or nothing at all, give the data of a deposit. -/
theorem dataBytes_spelled {p : Payload} (h : zeroX.isPrefixOf p.text = true ∨ p.text = []) :
    dataBytes p.text = some p.bytes := by
  obtain ⟨t, bs, hmeans, hbounded⟩ := p
  dsimp only at h ⊢
  cases hmeans with
  | @hex digits _ hdigits =>
    by_cases hnil : digits = []
    · subst hnil
      cases hdigits
      exact if_neg fun hne => hne.2 rfl
    · have hne : zeroX ++ digits ≠ [] ∧ zeroX ++ digits ≠ zeroX :=
        ⟨List.cons_ne_nil _ _, fun heq => hnil (List.append_right_eq_self.mp heq)⟩
      rw [dataBytes, if_pos hne, removePrefix_zeroX]
      exact fromhex_of_unhex hdigits
  | plain hplain =>
    obtain hprefix | rfl := h
    · rw [hplain] at hprefix
      cases hprefix
    · exact if_neg fun hne => hne.1 rfl

theorem abiEncodeDepositEther_eq {appAddress execLayerData : Text} {bs : Bytes}
    (h : dataBytes execLayerData = some bs) :
    abiEncodeDepositEther appAddress execLayerData =
      some (zeroX ++ ("938c054f".toList ++ pad32 appAddress ++ pad32 "40".toList ++ pad32 (Nat.toDigits 16 bs.length) ++
        hexOf (padded bs))) := by
  rw [abiEncodeDepositEther, h]
  rfl

theorem depositEther_encodes (app : HexText 20) {payload : Payload}
    (h : zeroX.isPrefixOf payload.text = true ∨ payload.text = []) :
    Encodes (abiEncodeDepositEther app.text payload.text) .depositEther [.address app.value, .bytes payload.bytes] := by
  have hselector : unhex "938c054f".toList = some (Function.selector .depositEther) := by
    rw [String.toList_ofList]
    decide
  have hoffset : unhex (pad32 "40".toList) = some (word 64) := by
    rw [String.toList_ofList]
    exact unhex_pad32_number (n := 64) (by norm_num)
  have hlt : payload.bytes.length < 2 ^ 256 := payload.length_lt.trans (by norm_num)
  refine ⟨_, abiEncodeDepositEther_eq (dataBytes_spelled h), ?_⟩
  rw [encode_dynamic]
  refine (unhex_append (unhex_append (unhex_append (unhex_append hselector (unhex_pad32 app)) hoffset)
    (unhex_pad32_number hlt)) (unhex_hexOf _)).trans ?_
  simp only [List.append_assoc]

/-! ### Transactions -/

theorem transaction_encodes {tx : Transaction} (h : tx.DataInDigits) :
    Encodes tx.calldata tx.function tx.arguments := by
  cases tx with
  | addInput app payload => exact addInput_encodes app payload
  | depositEther app execLayerData => exact depositEther_encodes app h
  | erc721Mint account tokenId => exact erc721Mint_encodes account tokenId
  | erc721Deposit token app tokenId => exact erc721Deposit_encodes token app tokenId
  | erc1155Mint account tokenId amount => exact erc1155Mint_encodes account tokenId amount
  | erc1155Deposit token app tokenId amount => exact erc1155Deposit_encodes token app tokenId amount
  | setApprovalForAll operator approved => exact setApprovalForAll_encodes operator approved
  | submitClaim app lastBlock claimHash => exact submitClaim_encodes app lastBlock claimHash

theorem arguments_types (tx : Transaction) : tx.arguments.map Value.ty = tx.function.signature := by
  cases tx <;> rfl

theorem padded_length_le (bs : Bytes) : (padded bs).length ≤ bs.length + 31 := by
  rw [padded, List.length_append, List.length_replicate]
  omega

/-- The encoding of the arguments is not longer than offsets and lengths can tell. -/
theorem arguments_fit (tx : Transaction) : (encode tx.arguments).length < 2 ^ 256 := by
  have hpayload (p : Payload) (a : FixedBytes 20) : (encode [.address a, .bytes p.bytes]).length < 2 ^ 256 := by
    have hle := padded_length_le p.bytes
    have hlt := p.length_lt
    rw [encode, List.length_append, length_heads]
    simp only [tails, List.flatMap_cons, List.flatMap_nil, Value.tail, List.length_append, List.length_cons,
      List.length_nil, length_word]
    exact lt_of_le_of_lt (b := 2 ^ 66) (by omega) (by norm_num)
  cases tx with
  | addInput app payload => exact hpayload payload app.value
  | depositEther app execLayerData => exact hpayload execLayerData app.value
  | _ =>
    rw [encode, List.length_append, length_heads]
    norm_num [Transaction.arguments, tails, Value.tail]

@[simp] theorem length_selector (f : Function) : f.selector.length = 4 := by
  cases f <;> rfl

theorem selector_injective {f g : Function} (h : f.selector = g.selector) : f = g := by
  cases f <;> cases g <;> first | rfl | exact absurd h (by decide)

theorem Encodes.roundTrips {tx : Transaction} (h : Encodes tx.calldata tx.function tx.arguments) : RoundTrips tx := by
  obtain ⟨digits, htext, hdigits⟩ := h
  refine ⟨digits, encode tx.arguments, htext, hdigits, length_selector _, dvd_length_encode _, ?_⟩
  rw [← arguments_types]
  exact decode_encode (arguments_fit tx)

/-- Calldata tells the function that is called and its arguments. -/
theorem Encodes.unique {tx tx' : Transaction} (h : Encodes tx.calldata tx.function tx.arguments)
    (h' : Encodes tx'.calldata tx'.function tx'.arguments) (heq : tx.calldata = tx'.calldata) :
    tx.function = tx'.function ∧ tx.arguments = tx'.arguments := by
  obtain ⟨digits, htext, hdigits⟩ := h
  obtain ⟨digits', htext', hdigits'⟩ := h'
  rw [htext, htext'] at heq
  obtain rfl := List.append_cancel_left (Option.some.inj heq)
  rw [hdigits] at hdigits'
  have hlen : tx.function.selector.length = tx'.function.selector.length := by
    rw [length_selector, length_selector]
  obtain ⟨hselector, hencode⟩ := List.append_inj (Option.some.inj hdigits') hlen
  have hfunction := selector_injective hselector
  refine ⟨hfunction, encode_injective ?_ (arguments_fit tx) hencode⟩
  rw [arguments_types, arguments_types, hfunction]

/-- If the data of Ether deposits is in digits, calldata decodes to the arguments, and no other call has it. -/
theorem calldata_round_trips {tx : Transaction} (h : tx.DataInDigits) :
    RoundTrips tx ∧ ∀ tx' : Transaction, tx'.DataInDigits → tx.calldata = tx'.calldata →
      tx.function = tx'.function ∧ tx.arguments = tx'.arguments :=
  ⟨(transaction_encodes h).roundTrips, fun _ h' heq => (transaction_encodes h).unique (transaction_encodes h') heq⟩

/-- `0x0000000000000000000000000000000000000001`. -/
def addressOne : HexText 20 where
  digits := List.replicate 39 '0' ++ ['1']
  value := ⟨List.replicate 19 0 ++ [1], rfl⟩
  spelled := unhex_append (t := List.replicate (2 * 19) '0') (unhex_zeros 19) (u := ['0', '1']) rfl

def cafe : Payload where
  text := zeroX ++ ['C', 'A', 'F', 'E']
  bytes := [0xca, 0xfe]
  means := .hex rfl
  bounded := by norm_num [zeroX]

def hello : Payload where
  text := ['h', 'e', 'l', 'l', 'o']
  bytes := utf8 ['h', 'e', 'l', 'l', 'o']
  means := .plain rfl
  bounded := by norm_num

theorem cafe_deposit_round_trips : RoundTrips (.depositEther addressOne cafe) :=
  ((calldata_round_trips (Or.inl rfl) : RoundTrips (.depositEther addressOne cafe) ∧ _).1)

/-- A deposit of Ether with plain data raises. -/
theorem hello_deposit_raises : ¬ ∀ tx : Transaction, RoundTrips tx := by
  intro h
  obtain ⟨digits, data, hcalldata, -⟩ := h (.depositEther addressOne hello)
  have hnone : dataBytes hello.text = none := by decide
  rw [Transaction.calldata, abiEncodeDepositEther, hnone] at hcalldata
  cases hcalldata

end ReleaseValidation.TestRunner.Calldata
