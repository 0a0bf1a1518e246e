import ReleaseValidation.Foundations.Abi
import ReleaseValidation.Foundations.TextLines

/-! # The predicted address of an application

The factory of the contracts is asked in a container what address an application will have. Its
answer is one ABI word for the address, which the container prints in digits, and with it what the
program has to say on its error stream. The last forty characters of the first line are taken for the
address.
-/
namespace ReleaseValidation.SandboxManager.AddressPrediction
open JsonTexts hiding isSpace
open HexTexts Abi TextLines

/-- `str.lower`. An ASCII text is lowered by its letters; no other character becomes a hexadecimal digit. -/
structure Lowering where
  lower : Text → Text
  ascii : ∀ t : Text, (∀ c ∈ t, c.toNat < 128) → lower t = t.map Char.toLower
  digits : ∀ t : Text, (∀ c ∈ lower t, (hexDigit c).isSome = true) → ∀ c ∈ t, c.toNat < 128

/-- What a call raises, with the texts of its message. -/
inductive Failure
  | failed (status : ℤ) (tail : Text)
  | unparsed (text : Text)
  deriving DecidableEq

/-- `addr_line`. -/
def addrLine (raw : Text) : Text := (filledLines raw).headD []

/-- `addr_raw`. -/
def addrRaw (raw : Text) : Text :=
  if ['0', 'x'] <+: addrLine raw then (addrLine raw).drop 2 else addrLine raw

/-- `_cast_predict_app_address_sync`, from the exit code and the text of the container. -/
def castPredictAppAddressSync (py : Lowering) (status : ℤ) (raw : Text) : Except Failure Text :=
  if status ≠ 0 then .error (.failed status (lastOf 400 (strip raw)))
  else if 40 ≤ (addrRaw raw).length then .ok ('0' :: 'x' :: py.lower (lastOf 40 (addrRaw raw)))
  else .error (.unparsed (strip raw))

/-- The text is that of the address: forty digits that spell its bytes. -/
structure Renders (text : Text) (address : FixedBytes 20) : Prop where
  shape : ∃ digits : Text, text = '0' :: 'x' :: digits ∧ digits.length = 40 ∧ (∀ c ∈ digits, (hexDigit c).isSome = true) ∧
    unhex digits = some address.bytes

/-- A call raises, or returns the address of the word that the contract has answered. -/
def RaisesOrRenders (py : Lowering) (status : ℤ) (raw : Text) (address : FixedBytes 20) : Prop :=
  ∀ text, castPredictAppAddressSync py status raw = .ok text → Renders text address

/-- The last forty characters of the first line are digits of the address. -/
def Printed (raw : Text) (address : FixedBytes 20) : Prop := unhex (lastOf 40 (addrRaw raw)) = some address.bytes

instance (raw : Text) (address : FixedBytes 20) : Decidable (Printed raw address) := inferInstanceAs (Decidable (_ = _))

/-! ### Letters -/

theorem hexDigit_toLower_of_ascii {c : Char} (hc : c.toNat < 128) : hexDigit c.toLower = hexDigit c := by
  have htable : ∀ n : Fin 128, hexDigit (Char.ofNat n.val).toLower = hexDigit (Char.ofNat n.val) := by decide
  have h := htable ⟨c.toNat, hc⟩
  rwa [Char.ofNat_toNat] at h

theorem unhex_toLower_of_ascii {t : Text} (ht : ∀ c ∈ t, c.toNat < 128) : unhex (t.map Char.toLower) = unhex t := by
  induction t using unhex.induct with
  | case1 => rfl
  | case2 c => rfl
  | case3 c d t ih =>
    obtain ⟨hc, ht⟩ := List.forall_mem_cons.mp ht
    obtain ⟨hd, ht⟩ := List.forall_mem_cons.mp ht
    rw [List.map_cons, List.map_cons, unhex, unhex, hexDigit_toLower_of_ascii hc, hexDigit_toLower_of_ascii hd, ih ht]

theorem ascii_of_digits {t : Text} (ht : ∀ c ∈ t, (hexDigit c).isSome = true) : ∀ c ∈ t, c.toNat < 128 := fun c hc => by
  obtain ⟨x, hx⟩ := Option.isSome_iff_exists.mp (ht c hc)
  exact hexDigit_ascii hx

theorem lower_spells_iff (py : Lowering) {t : Text} {bs : Bytes} : unhex (py.lower t) = some bs ↔ unhex t = some bs := by
  constructor
  · intro h
    have hascii := py.digits t (unhex_digits h)
    rwa [py.ascii t hascii, unhex_toLower_of_ascii hascii] at h
  · intro h
    have hascii := ascii_of_digits (unhex_digits h)
    rwa [py.ascii t hascii, unhex_toLower_of_ascii hascii]

/-- `str.lower` on the ASCII characters. -/
def asciiLowering : Lowering where
  lower t := t.map Char.toLower
  ascii _ _ := rfl
  digits t h c hc := by
    obtain ⟨x, hx⟩ := Option.isSome_iff_exists.mp (h c.toLower (List.mem_map_of_mem hc))
    have hlower := hexDigit_ascii hx
    unfold Char.toLower at hlower
    split at hlower
    next hletter => exact (UInt32.le_iff_toNat_le.mp hletter.2).trans_lt (by decide)
    next => exact hlower

/-! ### Answers -/

theorem renders_iff {digits : Text} {address : FixedBytes 20} :
    Renders ('0' :: 'x' :: digits) address ↔ unhex digits = some address.bytes := by
  constructor
  · rintro ⟨digits', heq, -, -, hbytes⟩
    cases heq
    exact hbytes
  · intro h
    refine ⟨digits, rfl, ?_, unhex_digits h, h⟩
    rw [unhex_length h, address.length_eq]

theorem raises_or_renders_iff (py : Lowering) (status : ℤ) (raw : Text) (address : FixedBytes 20) :
    RaisesOrRenders py status raw address ↔ status ≠ 0 ∨ (addrRaw raw).length < 40 ∨ Printed raw address := by
  unfold RaisesOrRenders castPredictAppAddressSync Printed
  by_cases hstatus : status = 0
  · rw [if_neg (not_not.mpr hstatus)]
    by_cases hlength : 40 ≤ (addrRaw raw).length
    · simp only [if_pos hlength, Except.ok.injEq, forall_eq', renders_iff, lower_spells_iff, ne_eq, hstatus, not_true,
        Nat.not_lt.mpr hlength, false_or]
    · rw [if_neg hlength]
      exact iff_of_true (fun text h => nomatch h) (.inr (.inl (Nat.lt_of_not_le hlength)))
  · rw [if_pos hstatus]
    exact iff_of_true (fun text h => nomatch h) (.inl hstatus)

theorem unhex_drop {t : Text} {bs cs : Bytes} (h : unhex t = some (bs ++ cs)) : unhex (t.drop (2 * bs.length)) = some cs := by
  induction bs generalizing t with
  | nil => exact h
  | cons b bs ih =>
    match t with
    | [] => cases h
    | [_] => cases h
    | c :: d :: t =>
      obtain ⟨x, y, bs', -, -, hrest, heq⟩ := unhex_cons_cons.mp h
      obtain ⟨-, rfl⟩ := List.cons.inj heq
      exact ih hrest

theorem filled_of_digit {c : Char} (h : (hexDigit c).isSome = true) : isSpace c = false := by
  obtain ⟨x, hx⟩ := Option.isSome_iff_exists.mp h
  exact hexDigit_induction (P := fun c _ => isSpace c = false) (by decide) hx

theorem addrRaw_line {digits : Text} (hdigits : ∀ c ∈ digits, (hexDigit c).isSome = true) (rest : Text) :
    addrRaw ('0' :: 'x' :: digits ++ '\n' :: rest) = digits := by
  have hfilled : ∀ c ∈ '0' :: 'x' :: digits, isSpace c = false := by
    rw [List.forall_mem_cons, List.forall_mem_cons]
    exact ⟨by decide, by decide, fun c hc => filled_of_digit (hdigits c hc)⟩
  have hline : addrLine ('0' :: 'x' :: digits ++ '\n' :: rest) = '0' :: 'x' :: digits := by
    rw [addrLine, filledLines, splitLines_line (oneLine_of_filled hfilled), List.map_cons, strip_of_forall hfilled,
      List.filter_cons_of_pos (by simp), List.headD_cons]
  rw [addrRaw, hline, if_pos ⟨digits, rfl⟩]
  rfl

/-- The first line is the address, plain or filled up to a word: the address is returned. -/
theorem answer_returned (py : Lowering) {digits : Text} {filling : Bytes} {address : FixedBytes 20}
    (hdigits : unhex digits = some (filling ++ address.bytes)) (rest : Text) :
    ∃ text, castPredictAppAddressSync py 0 ('0' :: 'x' :: digits ++ '\n' :: rest) = .ok text ∧ Renders text address := by
  have hraw := addrRaw_line (unhex_digits hdigits) rest
  have hwidth : digits.length = 2 * filling.length + 40 := by
    rw [unhex_length hdigits, List.length_append, address.length_eq]
    omega
  have hlast : unhex (lastOf 40 digits) = some address.bytes := by
    have hdrop := unhex_drop hdigits
    rwa [show 2 * filling.length = digits.length - 40 by omega] at hdrop
  unfold castPredictAppAddressSync
  rw [if_neg (by decide), hraw, if_pos (by omega)]
  exact ⟨_, rfl, renders_iff.mpr ((lower_spells_iff py).mpr hlast)⟩

/-- The word of the address, in digits, is read back. -/
theorem word_returned (py : Lowering) (address : FixedBytes 20) (rest : Text) :
    ∃ text, castPredictAppAddressSync py 0 ('0' :: 'x' :: hexOf ((Value.address address).head 0) ++ '\n' :: rest) = .ok text ∧
      Renders text address :=
  answer_returned py (unhex_hexOf _) rest

/-! ### A line of the error stream -/

def twenties : FixedBytes 20 := ⟨List.replicate 20 0x20, rfl⟩

/-- A warning stands before the address. -/
def warned : Text := "Warning: This is a nightly build of Foundry.\n0x2020202020202020202020202020202020202020\n".toList

theorem warning_returned : ¬ RaisesOrRenders asciiLowering 0 warned twenties := by
  have hreturned : castPredictAppAddressSync asciiLowering 0 warned =
      .ok ('0' :: 'x' :: "ing: this is a nightly build of foundry.".toList) := by
    unfold warned
    rw [String.toList_ofList, String.toList_ofList]
    rfl
  intro h
  have hdigits := unhex_digits (renders_iff.mp (h _ hreturned))
  exact absurd (hdigits 'g' (by rw [String.toList_ofList]; decide)) (by decide)

end ReleaseValidation.SandboxManager.AddressPrediction
