import Mathlib.Data.List.Basic
import ReleaseValidation.Foundations.HexTexts

/-! # The ABI of contract calls

The arguments of a call are encoded in a head of one word for each and a tail. A static argument
stands in the head; in the place of a dynamic one the head has the offset of its part of the tail,
which starts with its length and is filled up to whole words.
-/
namespace ReleaseValidation.Abi
open HexTexts

structure FixedBytes (n : ℕ) where
  bytes : Bytes
  length_eq : bytes.length = n
  deriving DecidableEq

inductive Ty
  | address
  | uint256
  | bool
  | bytes32
  | bytes
  deriving DecidableEq, Repr

inductive Value
  | address (a : FixedBytes 20)
  | uint256 (n : BitVec 256)
  | bool (b : Bool)
  | bytes32 (b : FixedBytes 32)
  | bytes (b : Bytes)
  deriving DecidableEq

namespace Value

def ty : Value → Ty
  | address _ => .address
  | uint256 _ => .uint256
  | bool _ => .bool
  | bytes32 _ => .bytes32
  | bytes _ => .bytes

end Value

/-- A number as a word. -/
def word (n : ℕ) : Bytes := bigEndian 32 n

/-- The bytes, filled up with zeros to whole words. -/
def padded (bs : Bytes) : Bytes := bs ++ List.replicate ((32 - bs.length % 32) % 32) 0

namespace Value

/-- The word in the head, if the tail of the argument is to be at `offset`. -/
def head (offset : ℕ) : Value → Bytes
  | address a => List.replicate 12 0 ++ a.bytes
  | uint256 n => word n.toNat
  | bool b => word b.toNat
  | bytes32 b => b.bytes
  | bytes _ => word offset

def tail : Value → Bytes
  | bytes b => word b.length ++ padded b
  | _ => []

end Value

/-- The heads of arguments whose tails start at `offset`. -/
def heads : ℕ → List Value → Bytes
  | _, [] => []
  | offset, v :: vs => v.head offset ++ heads (offset + v.tail.length) vs

def tails (vs : List Value) : Bytes := vs.flatMap Value.tail

def encode (vs : List Value) : Bytes := heads (32 * vs.length) vs ++ tails vs

/-! ### Reading -/

/-- The `n` bytes at position `i`. -/
def slice (data : Bytes) (i n : ℕ) : Option Bytes :=
  if i + n ≤ data.length then some ((data.drop i).take n) else none

def fixedBytes (n : ℕ) (bs : Bytes) : Option (FixedBytes n) :=
  if h : bs.length = n then some ⟨bs, h⟩ else none

/-- The argument whose head is `w`. -/
def readValue (data w : Bytes) : Ty → Option Value
  | .address => if w.take 12 = List.replicate 12 0 then (fixedBytes 20 (w.drop 12)).map Value.address else none
  | .uint256 => some (.uint256 (BitVec.ofNat 256 (ofBigEndian w)))
  | .bool =>
    if ofBigEndian w = 0 then some (.bool false) else if ofBigEndian w = 1 then some (.bool true) else none
  | .bytes32 => (fixedBytes 32 w).map Value.bytes32
  | .bytes => do
    let length ← slice data (ofBigEndian w) 32
    let content ← slice data (ofBigEndian w + 32) (ofBigEndian length)
    pure (.bytes content)

/-- The arguments whose heads start at position `i`. -/
def decodeFrom (data : Bytes) : ℕ → List Ty → Option (List Value)
  | _, [] => some []
  | i, ty :: tys => do
    let w ← slice data i 32
    let v ← readValue data w ty
    let vs ← decodeFrom data (i + 32) tys
    pure (v :: vs)

def decode (tys : List Ty) (data : Bytes) : Option (List Value) := decodeFrom data 0 tys

/-! ### Lengths -/

@[simp] theorem length_word (n : ℕ) : (word n).length = 32 := length_bigEndian 32 n

theorem ofBigEndian_word {n : ℕ} (h : n < 2 ^ 256) : ofBigEndian (word n) = n :=
  ofBigEndian_bigEndian (k := 32) (h.trans_le (by norm_num))

@[simp] theorem length_head (offset : ℕ) (v : Value) : (v.head offset).length = 32 := by
  cases v with
  | address a => rw [Value.head, List.length_append, a.length_eq, List.length_replicate]
  | uint256 n => exact length_word _
  | bool b => exact length_word _
  | bytes32 b => exact b.length_eq
  | bytes b => exact length_word _

theorem length_heads (offset : ℕ) (vs : List Value) : (heads offset vs).length = 32 * vs.length := by
  induction vs generalizing offset with
  | nil => rfl
  | cons v vs ih =>
    rw [heads, List.length_append, length_head, ih, List.length_cons]
    omega

@[simp] theorem padded_nil : padded [] = [] := rfl

theorem dvd_length_padded (bs : Bytes) : 32 ∣ (padded bs).length := by
  rw [padded, List.length_append, List.length_replicate]
  omega

theorem dvd_length_tail (v : Value) : 32 ∣ v.tail.length := by
  cases v with
  | bytes b =>
    rw [Value.tail, List.length_append, length_word]
    exact Nat.dvd_add (Nat.dvd_refl 32) (dvd_length_padded b)
  | _ => exact Nat.dvd_zero 32

theorem dvd_length_encode (vs : List Value) : 32 ∣ (encode vs).length := by
  rw [encode, List.length_append, length_heads]
  refine Nat.dvd_add (Nat.dvd_mul_right 32 vs.length) ?_
  induction vs with
  | nil => exact Nat.dvd_zero 32
  | cons v vs ih =>
    rw [tails, List.flatMap_cons, List.length_append]
    exact Nat.dvd_add (dvd_length_tail v) ih

/-! ### Round trips -/

theorem slice_of_drop {data bs rest : Bytes} {i : ℕ} (hi : i ≤ data.length) (h : data.drop i = bs ++ rest) :
    slice data i bs.length = some bs := by
  have hlen := congrArg List.length h
  rw [List.length_drop, List.length_append] at hlen
  rw [slice, if_pos (by omega), h, List.take_left]

/-- What follows the bytes at position `i`. -/
theorem drop_of_drop {data bs rest : Bytes} {i : ℕ} (hi : i ≤ data.length) (h : data.drop i = bs ++ rest) :
    i + bs.length ≤ data.length ∧ data.drop (i + bs.length) = rest := by
  have hlen := congrArg List.length h
  rw [List.length_drop, List.length_append] at hlen
  refine ⟨by omega, ?_⟩
  rw [← List.drop_drop, h, List.drop_left]

theorem fixedBytes_bytes {n : ℕ} (b : FixedBytes n) : fixedBytes n b.bytes = some b := dif_pos b.length_eq

/-- An argument is read from its head if its tail is where the head says. -/
theorem readValue_head {data rest : Bytes} {v : Value} {offset : ℕ} (hdata : data.length < 2 ^ 256)
    (hoffset : offset ≤ data.length) (htail : data.drop offset = v.tail ++ rest) :
    readValue data (v.head offset) v.ty = some v := by
  cases v with
  | address a =>
    have htake : (List.replicate 12 0 ++ a.bytes).take 12 = List.replicate 12 0 :=
      List.take_left' (List.length_replicate ..)
    have hdrop : (List.replicate 12 0 ++ a.bytes).drop 12 = a.bytes := List.drop_left' (List.length_replicate ..)
    rw [Value.head, Value.ty, readValue, htake, hdrop, if_pos rfl, fixedBytes_bytes]
    rfl
  | uint256 n =>
    rw [Value.head, Value.ty, readValue, ofBigEndian_word n.isLt, BitVec.ofNat_toNat, BitVec.setWidth_eq]
  | bool b =>
    have hb : b.toNat < 2 ^ 256 := (Bool.toNat_lt b).trans (by norm_num)
    rw [Value.head, Value.ty, readValue, ofBigEndian_word hb]
    cases b with
    | false => exact if_pos rfl
    | true => exact (if_neg Nat.one_ne_zero).trans (if_pos rfl)
  | bytes32 b =>
    rw [Value.head, Value.ty, readValue, fixedBytes_bytes]
    rfl
  | bytes b =>
    rw [Value.tail, List.append_assoc] at htail
    have hlength := slice_of_drop hoffset htail
    obtain ⟨hcontent, hrest⟩ := drop_of_drop hoffset htail
    rw [length_word] at hlength hcontent hrest
    rw [padded, List.append_assoc] at hrest
    have hbytes := slice_of_drop hcontent hrest
    have hb := (drop_of_drop hcontent hrest).1
    rw [Value.head, Value.ty, readValue, ofBigEndian_word (hoffset.trans_lt hdata), hlength, Option.bind_eq_bind,
      Option.bind_some, ofBigEndian_word (by omega), hbytes]
    rfl

/-- Arguments are decoded wherever their heads and their tails stand in the data. -/
theorem decodeFrom_heads {data rest rest' : Bytes} {vs : List Value} {i offset : ℕ} (hdata : data.length < 2 ^ 256)
    (hi : i ≤ data.length) (hheads : data.drop i = heads offset vs ++ rest) (hoffset : offset ≤ data.length)
    (htails : data.drop offset = tails vs ++ rest') : decodeFrom data i (vs.map Value.ty) = some vs := by
  induction vs generalizing i offset with
  | nil => rfl
  | cons v vs ih =>
    rw [heads, List.append_assoc] at hheads
    rw [tails, List.flatMap_cons, List.append_assoc] at htails
    have hword := slice_of_drop hi hheads
    obtain ⟨hi', hheads'⟩ := drop_of_drop hi hheads
    rw [length_head] at hword hi' hheads'
    obtain ⟨hoffset', htails'⟩ := drop_of_drop hoffset htails
    rw [List.map_cons, decodeFrom, hword, Option.bind_eq_bind, Option.bind_some,
      readValue_head hdata hoffset htails, Option.bind_eq_bind, Option.bind_some, ih hi' hheads' hoffset' htails']
    rfl

/-- Decoding the encoding of some arguments gives them back. -/
theorem decode_encode {vs : List Value} (h : (encode vs).length < 2 ^ 256) :
    decode (vs.map Value.ty) (encode vs) = some vs := by
  have htails : (encode vs).drop (32 * vs.length) = tails vs ++ [] := by
    rw [encode, List.drop_left' (length_heads _ vs), List.append_nil]
  have hle : 32 * vs.length ≤ (encode vs).length := by
    rw [encode, List.length_append, length_heads]
    exact Nat.le_add_right _ _
  exact decodeFrom_heads h (Nat.zero_le _) rfl hle htails

/-- Different arguments of the same types have different encodings. -/
theorem encode_injective {vs ws : List Value} (hty : vs.map Value.ty = ws.map Value.ty)
    (h : (encode vs).length < 2 ^ 256) (he : encode vs = encode ws) : vs = ws := by
  have hv := decode_encode h
  rw [he] at h
  have hw := decode_encode h
  rw [hty, he, hw] at hv
  exact (Option.some.inj hv).symm

end ReleaseValidation.Abi
