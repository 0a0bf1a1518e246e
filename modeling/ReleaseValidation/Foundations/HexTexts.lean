import Mathlib.Data.List.Induction
import ReleaseValidation.Foundations.JsonReading

/-! # Bytes, numbers and their hexadecimal texts

A number has its big-endian bytes, a list of bytes its text of two digits each. The digits of
a text may be of either case; a text of an even number of digits spells a list of bytes.
-/
namespace ReleaseValidation.HexTexts
open JsonTexts

abbrev Bytes := List UInt8

/-! ### Big-endian numbers -/

/-- The last `k` bytes of `n`. -/
def bigEndian : ℕ → ℕ → Bytes
  | 0, _ => []
  | k + 1, n => bigEndian k (n / 256) ++ [UInt8.ofNat (n % 256)]

def ofBigEndian (bs : Bytes) : ℕ := bs.foldl (fun n b => n * 256 + b.toNat) 0

@[simp] theorem length_bigEndian (k n : ℕ) : (bigEndian k n).length = k := by
  induction k generalizing n with
  | zero => rfl
  | succ k ih => rw [bigEndian, List.length_append, ih, List.length_singleton]

theorem ofBigEndian_concat (bs : Bytes) (b : UInt8) : ofBigEndian (bs ++ [b]) = ofBigEndian bs * 256 + b.toNat := by
  rw [ofBigEndian, List.foldl_append]
  rfl

theorem ofBigEndian_bigEndian {k n : ℕ} (h : n < 256 ^ k) : ofBigEndian (bigEndian k n) = n := by
  induction k generalizing n with
  | zero =>
    rw [pow_zero, Nat.lt_one_iff] at h
    rw [h]
    rfl
  | succ k ih =>
    have hdiv : n / 256 < 256 ^ k := Nat.div_lt_of_lt_mul (by rwa [pow_succ, Nat.mul_comm] at h)
    have hmod : (UInt8.ofNat (n % 256)).toNat = n % 256 := UInt8.toNat_ofNat_of_lt' (Nat.mod_lt _ (by decide))
    rw [bigEndian, ofBigEndian_concat, ih hdiv, hmod]
    exact Nat.div_add_mod' n 256

/-- Bytes are those of the number they stand for. -/
theorem bigEndian_ofBigEndian (bs : Bytes) : bigEndian bs.length (ofBigEndian bs) = bs := by
  induction bs using List.reverseRecOn with
  | nil => rfl
  | append_singleton bs b ih =>
    have hb : b.toNat < 256 := b.toNat_lt
    have hdiv : (ofBigEndian bs * 256 + b.toNat) / 256 = ofBigEndian bs := by omega
    have hmod : (ofBigEndian bs * 256 + b.toNat) % 256 = b.toNat := by omega
    rw [List.length_append, List.length_singleton, bigEndian, ofBigEndian_concat, hdiv, hmod, ih, UInt8.ofNat_toNat]

/-! ### Texts -/

def hexByte (b : UInt8) : Text := [Nat.digitChar (b.toNat / 16), Nat.digitChar (b.toNat % 16)]

def hexOf (bs : Bytes) : Text := bs.flatMap hexByte

/-- The bytes that a text spells. -/
def unhex : Text → Option Bytes
  | [] => some []
  | [_] => none
  | c :: d :: t => do
    let x ← hexDigit c
    let y ← hexDigit d
    let bs ← unhex t
    pure (UInt8.ofNat (x * 16 + y) :: bs)

theorem hexDigit_ascii {c : Char} {x : ℕ} (h : hexDigit c = some x) : c.toNat < 128 := by
  unfold hexDigit at h
  split at h
  next hc => exact (Char.isDigit_iff_toNat.mp hc).2.trans_lt (by decide)
  next =>
    split at h
    next hc => exact (UInt32.le_iff_toNat_le.mp hc.2).trans_lt (by decide)
    next =>
      split at h
      next hc => exact (UInt32.le_iff_toNat_le.mp hc.2).trans_lt (by decide)
      next => cases h

/-- What is true of the digits among the ASCII characters is true of every digit. -/
theorem hexDigit_induction {P : Char → ℕ → Prop}
    (hP : ∀ n : Fin 128, ∀ x ∈ hexDigit (Char.ofNat n.val), P (Char.ofNat n.val) x) {c : Char} {x : ℕ}
    (h : hexDigit c = some x) : P c x := by
  have hc := hP ⟨c.toNat, hexDigit_ascii h⟩
  rw [Char.ofNat_toNat] at hc
  exact hc x h

theorem hexDigit_lt {c : Char} {x : ℕ} (h : hexDigit c = some x) : x < 16 :=
  hexDigit_induction (P := fun _ x => x < 16) (by decide) h

theorem hexDigit_toLower {c : Char} {x : ℕ} (h : hexDigit c = some x) : hexDigit c.toLower = some x :=
  hexDigit_induction (P := fun c x => hexDigit c.toLower = some x) (by decide) h

theorem unhex_cons_cons {c d : Char} {t : Text} {bs : Bytes} :
    unhex (c :: d :: t) = some bs ↔ ∃ x y bs', hexDigit c = some x ∧ hexDigit d = some y ∧ unhex t = some bs' ∧
      bs = UInt8.ofNat (x * 16 + y) :: bs' := by
  simp only [unhex, Option.bind_eq_bind, Option.bind_eq_some_iff, Option.pure_def, Option.some.injEq]
  constructor
  · rintro ⟨x, hx, y, hy, bs', hbs', rfl⟩
    exact ⟨x, y, bs', hx, hy, hbs', rfl⟩
  · rintro ⟨x, y, bs', hx, hy, hbs', rfl⟩
    exact ⟨x, hx, y, hy, bs', hbs', rfl⟩

theorem unhex_append {t u : Text} {bs cs : Bytes} (ht : unhex t = some bs) (hu : unhex u = some cs) :
    unhex (t ++ u) = some (bs ++ cs) := by
  induction t using unhex.induct generalizing bs with
  | case1 =>
    cases ht
    exact hu
  | case2 c => cases ht
  | case3 c d t ih =>
    obtain ⟨x, y, bs', hx, hy, hbs', rfl⟩ := unhex_cons_cons.mp ht
    exact unhex_cons_cons.mpr ⟨x, y, bs' ++ cs, hx, hy, ih hbs', rfl⟩

theorem unhex_length {t : Text} {bs : Bytes} (h : unhex t = some bs) : t.length = 2 * bs.length := by
  induction t using unhex.induct generalizing bs with
  | case1 =>
    cases h
    rfl
  | case2 c => cases h
  | case3 c d t ih =>
    obtain ⟨x, y, bs', -, -, hbs', rfl⟩ := unhex_cons_cons.mp h
    have hlen := ih hbs'
    simp only [List.length_cons]
    omega

theorem unhex_digits {t : Text} {bs : Bytes} (h : unhex t = some bs) : ∀ c ∈ t, (hexDigit c).isSome = true := by
  induction t using unhex.induct generalizing bs with
  | case1 => simp
  | case2 c => cases h
  | case3 c d t ih =>
    obtain ⟨x, y, bs', hx, hy, hbs', -⟩ := unhex_cons_cons.mp h
    rw [List.forall_mem_cons, List.forall_mem_cons, hx, hy]
    exact ⟨rfl, rfl, ih hbs'⟩

/-- An even number of digits spells some bytes. -/
theorem unhex_of_digits {t : Text} (h : ∀ c ∈ t, (hexDigit c).isSome = true) (heven : t.length % 2 = 0) :
    ∃ bs, unhex t = some bs := by
  induction t using unhex.induct with
  | case1 => exact ⟨[], rfl⟩
  | case2 c => cases heven
  | case3 c d t ih =>
    obtain ⟨hc, h⟩ := List.forall_mem_cons.mp h
    obtain ⟨hd, h⟩ := List.forall_mem_cons.mp h
    obtain ⟨x, hx⟩ := Option.isSome_iff_exists.mp hc
    obtain ⟨y, hy⟩ := Option.isSome_iff_exists.mp hd
    obtain ⟨bs, hbs⟩ := ih h (by simp only [List.length_cons] at heven; omega)
    exact ⟨_, unhex_cons_cons.mpr ⟨x, y, bs, hx, hy, hbs, rfl⟩⟩

theorem unhex_toLower {t : Text} {bs : Bytes} (h : unhex t = some bs) : unhex (t.map Char.toLower) = some bs := by
  induction t using unhex.induct generalizing bs with
  | case1 => exact h
  | case2 c => cases h
  | case3 c d t ih =>
    obtain ⟨x, y, bs', hx, hy, hbs', rfl⟩ := unhex_cons_cons.mp h
    exact unhex_cons_cons.mpr ⟨x, y, bs', hexDigit_toLower hx, hexDigit_toLower hy, ih hbs', rfl⟩

theorem unhex_hexOf (bs : Bytes) : unhex (hexOf bs) = some bs := by
  induction bs with
  | nil => rfl
  | cons b bs ih =>
    have hb : b.toNat < 256 := b.toNat_lt
    refine unhex_cons_cons.mpr ⟨b.toNat / 16, b.toNat % 16, bs, hexDigit_digitChar (by omega),
      hexDigit_digitChar (Nat.mod_lt _ (by decide)), ih, ?_⟩
    rw [Nat.div_add_mod', UInt8.ofNat_toNat]

theorem unhex_zeros (k : ℕ) : unhex (List.replicate (2 * k) '0') = some (List.replicate k 0) := by
  induction k with
  | zero => rfl
  | succ k ih => exact unhex_cons_cons.mpr ⟨0, 0, _, rfl, rfl, ih, rfl⟩

/-! ### Numbers in digits -/

def hexValue (t : Text) : ℕ := t.foldl (fun n c => n * 16 + (hexDigit c).getD 0) 0

theorem hexValue_concat (t : Text) (c : Char) : hexValue (t ++ [c]) = hexValue t * 16 + (hexDigit c).getD 0 := by
  rw [hexValue, List.foldl_append]
  rfl

theorem hexValue_zeros (k : ℕ) (t : Text) : hexValue (List.replicate k '0' ++ t) = hexValue t := by
  induction k with
  | zero => rfl
  | succ k ih => exact ih

theorem ofBigEndian_unhex {t : Text} {bs : Bytes} (h : unhex t = some bs) : ofBigEndian bs = hexValue t := by
  have hgen : ∀ n : ℕ, bs.foldl (fun n b => n * 256 + b.toNat) n =
      t.foldl (fun n c => n * 16 + (hexDigit c).getD 0) n := by
    induction t using unhex.induct generalizing bs with
    | case1 =>
      cases h
      exact fun n => rfl
    | case2 c => cases h
    | case3 c d t ih =>
      obtain ⟨x, y, bs', hx, hy, hbs', rfl⟩ := unhex_cons_cons.mp h
      have hxlt := hexDigit_lt hx
      have hylt := hexDigit_lt hy
      have hbyte : (UInt8.ofNat (x * 16 + y)).toNat = x * 16 + y := UInt8.toNat_ofNat_of_lt' (by change _ < 256; omega)
      intro n
      rw [List.foldl_cons, List.foldl_cons, List.foldl_cons, hbyte, hx, hy, Option.getD_some, Option.getD_some,
        show n * 256 + (x * 16 + y) = (n * 16 + x) * 16 + y by omega]
      exact ih hbs' _
  exact hgen 0

/-- What is true of the sixteen digits is true of those of a number. -/
theorem forall_mem_toDigits {P : Char → Prop} (hP : ∀ d < 16, P (Nat.digitChar d)) (n : ℕ) :
    ∀ c ∈ Nat.toDigits 16 n, P c := by
  induction n using Nat.strongRecOn with
  | ind n ih =>
    by_cases hn : n < 16
    · rw [Nat.toDigits_of_lt_base hn, List.forall_mem_singleton]
      exact hP n hn
    · have hle : 16 ≤ n := Nat.le_of_not_lt hn
      rw [Nat.toDigits_of_base_le (by decide) hle, List.forall_mem_append, List.forall_mem_singleton]
      exact ⟨ih (n / 16) (Nat.div_lt_self (by omega) (by decide)), hP _ (Nat.mod_lt _ (by decide))⟩

theorem digits_toDigits (n : ℕ) : ∀ c ∈ Nat.toDigits 16 n, (hexDigit c).isSome = true :=
  forall_mem_toDigits (by decide) n

theorem toLower_toDigits (n : ℕ) : (Nat.toDigits 16 n).map Char.toLower = Nat.toDigits 16 n := by
  refine (List.map_congr_left ?_).trans (List.map_id _)
  exact forall_mem_toDigits (P := fun c => c.toLower = c) (by decide) n

theorem hexValue_toDigits (n : ℕ) : hexValue (Nat.toDigits 16 n) = n := by
  induction n using Nat.strongRecOn with
  | ind n ih =>
    by_cases hn : n < 16
    · rw [Nat.toDigits_of_lt_base hn]
      change 0 * 16 + (hexDigit (Nat.digitChar n)).getD 0 = n
      rw [hexDigit_digitChar hn, Nat.zero_mul, Nat.zero_add, Option.getD_some]
    · have hle : 16 ≤ n := Nat.le_of_not_lt hn
      rw [Nat.toDigits_of_base_le (by decide) hle, hexValue_concat, ih (n / 16) (Nat.div_lt_self (by omega) (by decide)),
        hexDigit_digitChar (Nat.mod_lt _ (by decide)), Option.getD_some]
      exact Nat.div_add_mod' n 16

/-- The digits of a number, filled up with zeros to `2 * k`, spell its last `k` bytes. -/
theorem unhex_number {k n : ℕ} (hk : 0 < k) (h : n < 256 ^ k) :
    unhex (List.replicate (2 * k - (Nat.toDigits 16 n).length) '0' ++ Nat.toDigits 16 n) = some (bigEndian k n) := by
  have hlen : (Nat.toDigits 16 n).length ≤ 2 * k := by
    refine Nat.toDigits_length 16 n (2 * k) (by omega) ?_
    rw [pow_mul]
    exact h
  have hdigits : ∀ c ∈ List.replicate (2 * k - (Nat.toDigits 16 n).length) '0' ++ Nat.toDigits 16 n,
      (hexDigit c).isSome = true := by
    rw [List.forall_mem_append]
    refine ⟨fun c hc => ?_, digits_toDigits n⟩
    rw [List.eq_of_mem_replicate hc]
    rfl
  have hwidth : (List.replicate (2 * k - (Nat.toDigits 16 n).length) '0' ++ Nat.toDigits 16 n).length = 2 * k := by
    rw [List.length_append, List.length_replicate, Nat.sub_add_cancel hlen]
  obtain ⟨bs, hbs⟩ := unhex_of_digits hdigits (by omega)
  have hk' : bs.length = k := by
    have hbytes := unhex_length hbs
    omega
  have hvalue := ofBigEndian_unhex hbs
  rw [hexValue_zeros, hexValue_toDigits] at hvalue
  rw [hbs, ← hk', ← hvalue, bigEndian_ofBigEndian]

end ReleaseValidation.HexTexts
