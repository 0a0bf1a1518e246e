import ReleaseValidation.Foundations.Abi

/-! # The calldata of the transactions

The executors encode the calls they send by hand: those of the input box and of the Ether portal
and the claims as texts of hexadecimal digits, the calls of the tokens and their portals as bytes.
A call that cannot be encoded raises.
-/
namespace ReleaseValidation.TestRunner.Calldata
open Abi HexTexts
open JsonTexts (Text hexDigit)

/-! ### Texts -/

/-- `0x`. -/
def zeroX : Text := ['0', 'x']

def removePrefix (t : Text) : Text := if zeroX.isPrefixOf t then t.drop 2 else t

/-- `lower()`, of an ASCII text. -/
def lower (t : Text) : Text := t.map Char.toLower

/-- `lstrip("0x")`. -/
def lstrip (t : Text) : Text := t.dropWhile fun c => c = '0' ∨ c = 'x'

/-- `zfill(width)`. -/
def zfill (width : ℕ) (t : Text) : Text :=
  match t with
  | [] => List.replicate width '0'
  | c :: r =>
    if c = '+' ∨ c = '-' then c :: (List.replicate (width - t.length) '0' ++ r)
    else List.replicate (width - t.length) '0' ++ t

/-- `ljust(width, "0")`. -/
def ljust (width : ℕ) (t : Text) : Text := t ++ List.replicate (width - t.length) '0'

/-- `hex(n)`. -/
def hex : ℤ → Text
  | .ofNat n => zeroX ++ Nat.toDigits 16 n
  | .negSucc n => '-' :: zeroX ++ Nat.toDigits 16 (n + 1)

def isAsciiSpace (c : Char) : Bool := c = ' ' || 9 ≤ c.toNat && c.toNat ≤ 13

/-- `bytes.fromhex(t)`. -/
def fromhex : Text → Option Bytes
  | [] => some []
  | [c] => if isAsciiSpace c then some [] else none
  | c :: d :: t =>
    if isAsciiSpace c then fromhex (d :: t)
    else do
      let x ← hexDigit c
      let y ← hexDigit d
      let bs ← fromhex t
      pure (UInt8.ofNat (x * 16 + y) :: bs)

/-- `s.encode("utf-8")`. -/
def utf8 (s : Text) : Bytes := s.flatMap String.utf8EncodeChar

/-- `rjust(32, b"\\x00")`. -/
def rjust32 (bs : Bytes) : Bytes := List.replicate (32 - bs.length) 0 ++ bs

/-- `n.to_bytes(32, "big")`. -/
def toBytes32 (n : ℤ) : Option Bytes := if 0 ≤ n ∧ n < 2 ^ 256 then some (bigEndian 32 n.toNat) else none

/-! ### Encoders -/

/-- The payload of a `chain_tx` assertion. -/
def chainPayload (rawPayload : Text) : Text :=
  if zeroX.isPrefixOf rawPayload then rawPayload else zeroX ++ hexOf (utf8 rawPayload)

def abiEncodeAddInput (appAddress payloadHex : Text) : Text :=
  let addr := zfill 64 (removePrefix (lower appAddress))
  let offset := "0000000000000000000000000000000000000000000000000000000000000040".toList
  let raw := (removePrefix (lower payloadHex)).filter (· ≠ ' ')
  let lengthVal := raw.length / 2
  let lengthEnc := zfill 64 ((hex lengthVal).drop 2)
  let paddedLen := (lengthVal + 31) / 32 * 32
  let payloadEnc := ljust (paddedLen * 2) raw
  zeroX ++ ("1789cd63".toList ++ addr ++ offset ++ lengthEnc ++ payloadEnc)

def pad32 (val : Text) : Text := zfill 64 (removePrefix (lower val))

/-- `data_bytes` of an Ether deposit. -/
def dataBytes (execLayerData : Text) : Option Bytes :=
  if execLayerData ≠ [] ∧ execLayerData ≠ zeroX then fromhex (removePrefix execLayerData) else some []

def abiEncodeDepositEther (appAddress execLayerData : Text) : Option Text := do
  let addr := pad32 appAddress
  let offset := pad32 "40".toList
  let dataBytes ← dataBytes execLayerData
  let length := pad32 ((hex dataBytes.length).drop 2)
  let padded := dataBytes ++ List.replicate ((32 - dataBytes.length % 32) % 32) 0
  pure (zeroX ++ ("938c054f".toList ++ addr ++ offset ++ length ++ hexOf padded))

def abiEncodeErc721Mint (toAddr : Text) (tokenId : ℤ) : Option Text := do
  let selector ← fromhex "40c10f19".toList
  let account ← fromhex (toAddr.drop 2)
  let id ← toBytes32 tokenId
  pure (zeroX ++ hexOf (selector ++ rjust32 account ++ id))

def abiEncodeErc721Deposit (token app : Text) (tokenId : ℤ) : Option Text := do
  let selector ← fromhex "28911e83".toList
  let token ← fromhex (token.drop 2)
  let app ← fromhex (app.drop 2)
  let id ← toBytes32 tokenId
  let baseOffset ← toBytes32 160
  let execOffset ← toBytes32 192
  let zero ← toBytes32 0
  let head := rjust32 token ++ rjust32 app ++ id ++ baseOffset ++ execOffset
  let tail := zero ++ zero
  pure (zeroX ++ hexOf (selector ++ head ++ tail))

def abiEncodeErc1155Mint (toAddr : Text) (tokenId amount : ℤ) : Option Text := do
  let selector ← fromhex "156e29f6".toList
  let account ← fromhex (toAddr.drop 2)
  let id ← toBytes32 tokenId
  let amount ← toBytes32 amount
  pure (zeroX ++ hexOf (selector ++ rjust32 account ++ id ++ amount))

def abiEncodeSetApprovalForAll (operator : Text) (approved : Bool) : Option Text := do
  let selector ← fromhex "a22cb465".toList
  let operator ← fromhex (operator.drop 2)
  let flag ← toBytes32 approved.toNat
  pure (zeroX ++ hexOf (selector ++ rjust32 operator ++ flag))

def abiEncodeErc1155Deposit (token app : Text) (tokenId amount : ℤ) : Option Text := do
  let selector ← fromhex "dec07dca".toList
  let token ← fromhex (token.drop 2)
  let app ← fromhex (app.drop 2)
  let id ← toBytes32 tokenId
  let amount ← toBytes32 amount
  let baseOffset ← toBytes32 192
  let execOffset ← toBytes32 224
  let zero ← toBytes32 0
  let head := rjust32 token ++ rjust32 app ++ id ++ amount ++ baseOffset ++ execOffset
  let tail := zero ++ zero
  pure (zeroX ++ hexOf (selector ++ head ++ tail))

/-- The calldata of `_submit_claim_if_computed`. -/
def submitClaim (appAddress : Text) (lastBlock : ℤ) (claimHash : Text) : Text :=
  let appHex := zfill 64 (lstrip (lower appAddress))
  let hashHex := zfill 64 (lstrip claimHash)
  zeroX ++ ("6470af00".toList ++ appHex ++ zfill 64 ((hex lastBlock).drop 2) ++ hashHex)

/-! ### Calls -/

inductive Function
  | addInput
  | depositEther
  | erc721Mint
  | erc721Deposit
  | erc1155Mint
  | erc1155Deposit
  | setApprovalForAll
  | submitClaim
  deriving DecidableEq, Repr

namespace Function

def selector : Function → Bytes
  | addInput => [0x17, 0x89, 0xcd, 0x63]
  | depositEther => [0x93, 0x8c, 0x05, 0x4f]
  | erc721Mint => [0x40, 0xc1, 0x0f, 0x19]
  | erc721Deposit => [0x28, 0x91, 0x1e, 0x83]
  | erc1155Mint => [0x15, 0x6e, 0x29, 0xf6]
  | erc1155Deposit => [0xde, 0xc0, 0x7d, 0xca]
  | setApprovalForAll => [0xa2, 0x2c, 0xb4, 0x65]
  | submitClaim => [0x64, 0x70, 0xaf, 0x00]

/-- The types in the signature that the comment of the encoder gives. -/
def signature : Function → List Ty
  | addInput | depositEther => [.address, .bytes]
  | erc721Mint => [.address, .uint256]
  | erc721Deposit => [.address, .address, .uint256, .bytes, .bytes]
  | erc1155Mint => [.address, .uint256, .uint256]
  | erc1155Deposit => [.address, .address, .uint256, .uint256, .bytes, .bytes]
  | setApprovalForAll => [.address, .bool]
  | submitClaim => [.address, .uint256, .bytes32]

end Function

/-- A text that spells `n` bytes after `0x`, in digits of either case. -/
structure HexText (n : ℕ) where
  digits : Text
  value : FixedBytes n
  spelled : unhex digits = some value.bytes

def HexText.text {n : ℕ} (h : HexText n) : Text := zeroX ++ h.digits

/-- The bytes that a payload stands for: those it spells after `0x`, or else those of its characters. -/
inductive Means : Text → Bytes → Prop
  | hex {digits : Text} {bs : Bytes} : unhex digits = some bs → Means (zeroX ++ digits) bs
  | plain {s : Text} : zeroX.isPrefixOf s = false → Means s (utf8 s)

/-- A payload; no text is longer than the interpreter can index. -/
structure Payload where
  text : Text
  bytes : Bytes
  means : Means text bytes
  bounded : text.length < 2 ^ 63

inductive Transaction
  | addInput (app : HexText 20) (payload : Payload)
  | depositEther (app : HexText 20) (execLayerData : Payload)
  | erc721Mint (account : HexText 20) (tokenId : BitVec 256)
  | erc721Deposit (token app : HexText 20) (tokenId : BitVec 256)
  | erc1155Mint (account : HexText 20) (tokenId amount : BitVec 256)
  | erc1155Deposit (token app : HexText 20) (tokenId amount : BitVec 256)
  | setApprovalForAll (operator : HexText 20) (approved : Bool)
  | submitClaim (app : HexText 20) (lastBlock : BitVec 256) (claimHash : HexText 32)

namespace Transaction

def function : Transaction → Function
  | addInput .. => .addInput
  | depositEther .. => .depositEther
  | erc721Mint .. => .erc721Mint
  | erc721Deposit .. => .erc721Deposit
  | erc1155Mint .. => .erc1155Mint
  | erc1155Deposit .. => .erc1155Deposit
  | setApprovalForAll .. => .setApprovalForAll
  | submitClaim .. => .submitClaim

/-- The arguments of the call, with empty bytes where the encoder passes none. -/
def arguments : Transaction → List Value
  | addInput app payload => [.address app.value, .bytes payload.bytes]
  | depositEther app execLayerData => [.address app.value, .bytes execLayerData.bytes]
  | erc721Mint account tokenId => [.address account.value, .uint256 tokenId]
  | erc721Deposit token app tokenId =>
    [.address token.value, .address app.value, .uint256 tokenId, .bytes [], .bytes []]
  | erc1155Mint account tokenId amount => [.address account.value, .uint256 tokenId, .uint256 amount]
  | erc1155Deposit token app tokenId amount =>
    [.address token.value, .address app.value, .uint256 tokenId, .uint256 amount, .bytes [], .bytes []]
  | setApprovalForAll operator approved => [.address operator.value, .bool approved]
  | submitClaim app lastBlock claimHash => [.address app.value, .uint256 lastBlock, .bytes32 claimHash.value]

/-- The calldata that the executor builds, unless it raises. -/
def calldata : Transaction → Option Text
  | addInput app payload => some (abiEncodeAddInput app.text (chainPayload payload.text))
  | depositEther app execLayerData => abiEncodeDepositEther app.text execLayerData.text
  | erc721Mint account tokenId => abiEncodeErc721Mint account.text tokenId.toNat
  | erc721Deposit token app tokenId => abiEncodeErc721Deposit token.text app.text tokenId.toNat
  | erc1155Mint account tokenId amount => abiEncodeErc1155Mint account.text tokenId.toNat amount.toNat
  | erc1155Deposit token app tokenId amount =>
    abiEncodeErc1155Deposit token.text app.text tokenId.toNat amount.toNat
  | setApprovalForAll operator approved => abiEncodeSetApprovalForAll operator.text approved
  | submitClaim app lastBlock claimHash => some (Calldata.submitClaim app.text lastBlock.toNat claimHash.text)

end Transaction

end ReleaseValidation.TestRunner.Calldata
