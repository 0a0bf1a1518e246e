import ReleaseValidation.Foundations.JsonTexts

/-! # Reading back what was written

The reader returns the value that was written, save that a high and a low surrogate which
stood next to each other have become one code point, and refuses a number that is not
finite. A string is followed member by member; for the sequences in brackets the same holds
of any way to write and read their members.
-/
namespace ReleaseValidation.JsonTexts

/-! ### Values and their members -/

/-- Induction over a value, with its members as lists. -/
@[elab_as_elim]
theorem Value.byMembers {P : Value → Prop} (null : P .null) (bool : ∀ b, P (.bool b)) (num : ∀ n, P (.num n))
    (nonFinite : ∀ x, P (.nonFinite x)) (str : ∀ s, P (.str s))
    (arr : ∀ items, (∀ v ∈ items, P v) → P (.arr items))
    (obj : ∀ fields, (∀ kv ∈ fields, P kv.2) → P (.obj fields)) (v : Value) : P v := by
  refine Value.rec (motive_1 := P) (motive_2 := fun items => ∀ v ∈ items, P v)
    (motive_3 := fun fields => ∀ kv ∈ fields, P kv.2) (motive_4 := fun kv => P kv.2)
    null bool num nonFinite str arr obj ?_ ?_ ?_ ?_ ?_ v
  · intro v hv
    cases hv
  · intro v vs hv hvs
    exact List.forall_mem_cons.mpr ⟨hv, hvs⟩
  · intro kv hkv
    cases hkv
  · intro kv fs hkv hfs
    exact List.forall_mem_cons.mpr ⟨hkv, hfs⟩
  · exact fun k v hv => hv

theorem dumpItems_eq (items : List Value) : dumpItems items = items.map dump := by
  induction items with
  | nil => rfl
  | cons v vs ih => rw [dumpItems, ih, List.map_cons]

theorem dumpFields_eq (fields : List (Str × Value)) :
    dumpFields fields = fields.map fun kv => dumpField kv.1 (dump kv.2) := by
  induction fields with
  | nil => rfl
  | cons kv fs ih => rw [dumpFields, ih, List.map_cons]

theorem dump_arr (items : List Value) : dump (.arr items) = '[' :: joined (items.map dump) ++ [']'] := by
  rw [← dumpItems_eq]
  rfl

theorem dump_obj (fields : List (Str × Value)) :
    dump (.obj fields) = '{' :: joined (fields.map fun kv => dumpField kv.1 (dump kv.2)) ++ ['}'] := by
  rw [← dumpFields_eq]
  rfl

theorem mapItems_eq (f : Str → Str) (items : List Value) : mapItems f items = items.map (mapStrings f) := by
  induction items with
  | nil => rfl
  | cons v vs ih => rw [mapItems, ih, List.map_cons]

theorem mapFields_eq (f : Str → Str) (fields : List (Str × Value)) :
    mapFields f fields = fields.map fun kv => (f kv.1, mapStrings f kv.2) := by
  induction fields with
  | nil => rfl
  | cons kv fs ih => rw [mapFields, ih, List.map_cons]

theorem mem_stringsOfItems {s : Str} {items : List Value} : s ∈ stringsOfItems items ↔ ∃ v ∈ items, s ∈ strings v := by
  induction items with
  | nil => simp [stringsOfItems]
  | cons v vs ih => simp [stringsOfItems, ih]

theorem mem_stringsOfFields {s : Str} {fields : List (Str × Value)} :
    s ∈ stringsOfFields fields ↔ ∃ kv ∈ fields, s = kv.1 ∨ s ∈ strings kv.2 := by
  induction fields with
  | nil => simp [stringsOfFields]
  | cons kv fs ih => simp [stringsOfFields, ih, or_assoc]

theorem finiteItems_iff {items : List Value} : finiteItems items = true ↔ ∀ v ∈ items, finite v = true := by
  induction items with
  | nil => simp [finiteItems]
  | cons v vs ih => simp [finiteItems, ih]

theorem finiteFields_iff {fields : List (Str × Value)} :
    finiteFields fields = true ↔ ∀ kv ∈ fields, finite kv.2 = true := by
  induction fields with
  | nil => simp [finiteFields]
  | cons kv fs ih => simp [finiteFields, ih]

theorem strings_mapStrings (f : Str → Str) (v : Value) : strings (mapStrings f v) = (strings v).map f := by
  induction v using Value.byMembers with
  | arr items ih =>
    rw [mapStrings, strings, strings]
    induction items with
    | nil => rfl
    | cons v vs ihs =>
      obtain ⟨hv, hvs⟩ := List.forall_mem_cons.mp ih
      rw [mapItems, stringsOfItems, stringsOfItems, hv, ihs hvs, List.map_append]
  | obj fields ih =>
    rw [mapStrings, strings, strings]
    induction fields with
    | nil => rfl
    | cons kv fs ihs =>
      obtain ⟨hv, hfs⟩ := List.forall_mem_cons.mp ih
      rw [mapFields, stringsOfFields, stringsOfFields, hv, ihs hfs, List.map_cons, List.map_append]
  | _ => rfl

theorem mapStrings_eq_self_iff {f : Str → Str} {v : Value} : mapStrings f v = v ↔ ∀ s ∈ strings v, f s = s := by
  constructor
  · intro h
    have hmap : (strings v).map f = (strings v).map id := by rw [← strings_mapStrings, h, List.map_id]
    exact List.map_inj_left.mp hmap
  · intro h
    induction v using Value.byMembers with
    | str s => rw [mapStrings, h s List.mem_cons_self]
    | arr items ih =>
      have hitems : items.map (mapStrings f) = items.map id := by
        refine List.map_congr_left fun v hv => ih v hv fun s hs => h s ?_
        exact mem_stringsOfItems.mpr ⟨v, hv, hs⟩
      rw [mapStrings, mapItems_eq, hitems, List.map_id]
    | obj fields ih =>
      have hfields : (fields.map fun kv => (f kv.1, mapStrings f kv.2)) = fields.map id := by
        refine List.map_congr_left fun kv hkv => Prod.ext ?_ ?_
        · exact h kv.1 (mem_stringsOfFields.mpr ⟨kv, hkv, Or.inl rfl⟩)
        · exact ih kv hkv fun s hs => h s (mem_stringsOfFields.mpr ⟨kv, hkv, Or.inr hs⟩)
      rw [mapStrings, mapFields_eq, hfields, List.map_id]
    | _ => rfl

/-! ### Strings -/

theorem hexDigit_digitChar {d : ℕ} (h : d < 16) : hexDigit (Nat.digitChar d) = some d := by
  have hall : ∀ d : Fin 16, hexDigit (Nat.digitChar d.val) = some d.val := by decide
  exact hall ⟨d, h⟩

theorem hexUnit_digits {x : ℕ} (h : x < 0x10000) :
    hexUnit (Nat.digitChar (x / 0x1000 % 16)) (Nat.digitChar (x / 0x100 % 16)) (Nat.digitChar (x / 16 % 16))
      (Nat.digitChar (x % 16)) = some x := by
  have hlt : ∀ y : ℕ, y % 16 < 16 := fun y => Nat.mod_lt y (by decide)
  simp only [hexUnit, hexDigit_digitChar (hlt _), Option.bind_eq_bind, Option.bind_some, Option.pure_def,
    Option.some.injEq]
  omega

theorem readChars_quote (t : Text) : readChars ('"' :: t) = some ([], t) := by
  rw [readChars.eq_def]
  exact if_pos rfl

theorem readChars_char {c : Char} (hq : c ≠ '"') (hb : c ≠ '\\') (hc : 0x20 ≤ c.toNat) (t : Text) :
    readChars (c :: t) = (readChars t).map fun (s, r) => (consUnit (Fin.ofNat _ c.toNat) s, r) := by
  rw [readChars.eq_def]
  simp only [if_neg hq, if_neg hb, if_neg (Nat.not_lt.mpr hc)]

theorem readChars_hex (h₁ h₂ h₃ h₄ : Char) (t : Text) :
    readChars ('\\' :: 'u' :: h₁ :: h₂ :: h₃ :: h₄ :: t) = (hexUnit h₁ h₂ h₃ h₄).bind fun x =>
      (readChars t).map fun (s, r) => (consUnit (Fin.ofNat _ x) s, r) := by
  rw [readChars.eq_def]
  simp only [if_neg (by decide : '\\' ≠ '"'), ↓reduceIte]

theorem readChars_other {e : Char} (hu : e ≠ 'u') (t : Text) :
    readChars ('\\' :: e :: t) = (simpleEscape e).bind fun x =>
      (readChars t).map fun (s, r) => (consUnit (Fin.ofNat _ x) s, r) := by
  rw [readChars.eq_def]
  simp only [if_neg (by decide : '\\' ≠ '"'), ↓reduceIte, if_neg hu]

/-- One character of a string as it can be written: itself, by its number, or by its short escape. -/
inductive Unit : Text → CodePoint → Prop
  | plain {c : Char} (hq : c ≠ '"') (hb : c ≠ '\\') (hc : 0x20 ≤ c.toNat) : Unit [c] (Fin.ofNat _ c.toNat)
  | hex {h₁ h₂ h₃ h₄ : Char} {x : ℕ} (h : hexUnit h₁ h₂ h₃ h₄ = some x) :
      Unit ['\\', 'u', h₁, h₂, h₃, h₄] (Fin.ofNat _ x)
  | short {e : Char} {x : ℕ} (h : simpleEscape e = some x) (hu : e ≠ 'u') : Unit ['\\', e] (Fin.ofNat _ x)

theorem readChars_unit {p : Text} {x : CodePoint} (h : Unit p x) (t : Text) :
    readChars (p ++ t) = (readChars t).map fun (s, r) => (consUnit x s, r) := by
  cases h with
  | plain hq hb hc => exact readChars_char hq hb hc t
  | hex h =>
    simp only [List.cons_append, List.nil_append]
    rw [readChars_hex, h, Option.bind_some]
  | short h hu =>
    simp only [List.cons_append, List.nil_append]
    rw [readChars_other hu, h, Option.bind_some]

/-- Induction over the characters of a string that was read. -/
theorem readChars_induction {r : Text} {P : Text → Str → Prop} (quote : P ('"' :: r) [])
    (unit : ∀ p x t s, Unit p x → P t s → P (p ++ t) (consUnit x s)) {t : Text} {s : Str}
    (h : readChars t = some (s, r)) : P t s := by
  have hunit : ∀ {p : Text} {x : CodePoint} {t : Text} {s : Str}, Unit p x →
      (∀ {s : Str}, readChars t = some (s, r) → P t s) → readChars (p ++ t) = some (s, r) → P (p ++ t) s := by
    intro p x t s hp ih h
    rw [readChars_unit hp] at h
    obtain ⟨⟨s', r'⟩, hread, heq⟩ := Option.map_eq_some_iff.mp h
    cases heq
    exact unit p x t s' hp (ih hread)
  induction t using readChars.induct generalizing s with
  | case1 => cases h
  | case2 t =>
    rw [readChars_quote] at h
    cases h
    exact quote
  | case3 => cases h
  | case4 h₁ h₂ h₃ h₄ t _ ih =>
    cases hx : hexUnit h₁ h₂ h₃ h₄ with
    | none =>
      rw [readChars_hex, hx] at h
      cases h
    | some x => exact hunit (.hex hx) ih h
  | case5 t ht _ =>
    rw [readChars.eq_def] at h
    simp only [if_neg (by decide : '\\' ≠ '"'), ↓reduceIte] at h
    cases h
  | case6 e t hu _ ih =>
    cases hx : simpleEscape e with
    | none =>
      rw [readChars_other hu, hx] at h
      cases h
    | some x => exact hunit (.short hx hu) ih h
  | case7 c t hq hb hc =>
    rw [readChars.eq_def] at h
    simp only [if_neg hq, if_neg hb, if_pos hc] at h
    cases h
  | case8 c t hq hb hc ih => exact hunit (.plain hq hb (Nat.le_of_not_lt hc)) ih h

theorem readChars_unitEscape {x : ℕ} (h : x < 0x10000) (t : Text) :
    readChars (unitEscape x ++ t) = (readChars t).map fun (s, r) => (consUnit (Fin.ofNat _ x) s, r) := by
  simp only [unitEscape, List.cons_append, List.nil_append]
  rw [readChars_hex, hexUnit_digits h, Option.bind_some]

theorem readChars_simple {e : Char} {x : ℕ} (h : simpleEscape e = some x) (hu : e ≠ 'u') (t : Text) :
    readChars ('\\' :: e :: t) = (readChars t).map fun (s, r) => (consUnit (Fin.ofNat _ x) s, r) := by
  rw [readChars_other hu, h, Option.bind_some]

/-- The code point of a character. -/
theorem val_ofNat_char (c : Char) : (Fin.ofNat 0x110000 c.toNat).val = c.toNat := by
  apply Nat.mod_eq_of_lt
  obtain hbelow | ⟨-, habove⟩ := c.valid
  · exact Nat.lt_trans hbelow (by decide)
  · exact habove

theorem toNat_ofNat {x : ℕ} (h : x < 0x7f) : (Char.ofNat x).toNat = x := by
  have hall : ∀ x : Fin 0x7f, (Char.ofNat x.val).toNat = x.val := by decide
  exact hall ⟨x, h⟩

theorem readChars_plain {x : ℕ} (hp : printable x = true) (hq : x ≠ 0x22) (hb : x ≠ 0x5c) (t : Text) :
    readChars (Char.ofNat x :: t) = (readChars t).map fun (s, r) => (consUnit (Fin.ofNat _ x) s, r) := by
  simp only [printable, Bool.and_eq_true, decide_eq_true_eq] at hp
  have hnat : (Char.ofNat x).toNat = x := toNat_ofNat (by omega)
  have hne : ∀ c : Char, c.toNat ≠ x → Char.ofNat x ≠ c := by
    rintro c hc rfl
    exact hc hnat
  have hquote : Char.ofNat x ≠ '"' := hne '"' (Ne.symm hq)
  have hback : Char.ofNat x ≠ '\\' := hne '\\' (Ne.symm hb)
  rw [readChars_char hquote hback (by omega), hnat]

theorem consUnit_of_not_high {x : CodePoint} (h : isHigh x = false) (s : Str) : consUnit x s = x :: s := by
  cases s with
  | nil => rfl
  | cons y s => rw [consUnit, h]; rfl

theorem high_lt {x : CodePoint} (h : 0x10000 ≤ x.val) : 0xd800 ≤ high x.val ∧ high x.val < 0xdc00 := by
  have hx := x.isLt
  unfold high
  omega

theorem low_lt (x : ℕ) : 0xdc00 ≤ low x ∧ low x < 0xe000 := by
  unfold low
  omega

/-- The two surrogates of a code point give it back. -/
theorem consUnit_pair {x : CodePoint} (h : 0x10000 ≤ x.val) (s : Str) :
    consUnit (Fin.ofNat _ (high x.val)) (consUnit (Fin.ofNat _ (low x.val)) s) = x :: s := by
  have hx := x.isLt
  obtain ⟨hh1, hh2⟩ := high_lt h
  obtain ⟨hl1, hl2⟩ := low_lt x.val
  have hhigh : (Fin.ofNat 0x110000 (high x.val)).val = high x.val := Nat.mod_eq_of_lt (by omega)
  have hlow : (Fin.ofNat 0x110000 (low x.val)).val = low x.val := Nat.mod_eq_of_lt (by omega)
  have hnot : isHigh (Fin.ofNat _ (low x.val)) = false := by
    simp only [isHigh, hlow, Bool.and_eq_false_iff, decide_eq_false_iff_not]
    omega
  have hpaired : paired (Fin.ofNat _ (high x.val)) (Fin.ofNat _ (low x.val)) = x := by
    apply Fin.ext
    simp only [paired, hhigh, hlow, Fin.val_ofNat]
    unfold high low
    omega
  have hboth : (isHigh (Fin.ofNat _ (high x.val)) && isLow (Fin.ofNat _ (low x.val))) = true := by
    simp only [isHigh, isLow, hhigh, hlow, Bool.and_eq_true, decide_eq_true_eq]
    omega
  rw [consUnit_of_not_high hnot, consUnit, if_pos hboth, hpaired]

/-- A written character is a short escape, the character itself, its number or its two surrogates. -/
theorem escape_forms (x : CodePoint) :
    (∃ e, escape x = ['\\', e] ∧ simpleEscape e = some x.val ∧ e ≠ 'u') ∨
      (escape x = [Char.ofNat x.val] ∧ printable x.val = true ∧ x.val ≠ 0x22 ∧ x.val ≠ 0x5c) ∨
      (escape x = unitEscape x.val ∧ x.val < 0x10000 ∧ x.val ≠ 0x5c) ∨
      (escape x = unitEscape (high x.val) ++ unitEscape (low x.val) ∧ 0x10000 ≤ x.val) := by
  have hshort : ∀ (e : Char) (y : ℕ), simpleEscape e = some y → e ≠ 'u' → x.val = y →
      ∃ e', ['\\', e] = ['\\', e'] ∧ simpleEscape e' = some x.val ∧ e' ≠ 'u' := by
    rintro e y he hu rfl
    exact ⟨e, rfl, he, hu⟩
  fun_cases escape x with
  | case1 h => exact Or.inl (hshort '"' 0x22 rfl (by decide) h)
  | case2 _ h => exact Or.inl (hshort '\\' 0x5c rfl (by decide) h)
  | case3 _ _ h => exact Or.inl (hshort 'n' 0x0a rfl (by decide) h)
  | case4 _ _ _ h => exact Or.inl (hshort 'r' 0x0d rfl (by decide) h)
  | case5 _ _ _ _ h => exact Or.inl (hshort 't' 0x09 rfl (by decide) h)
  | case6 _ _ _ _ _ h => exact Or.inl (hshort 'f' 0x0c rfl (by decide) h)
  | case7 _ _ _ _ _ _ h => exact Or.inl (hshort 'b' 0x08 rfl (by decide) h)
  | case8 hquote hback _ _ _ _ _ h => exact Or.inr (Or.inl ⟨rfl, h, hquote, hback⟩)
  | case9 _ hback _ _ _ _ _ _ h => exact Or.inr (Or.inr (Or.inl ⟨rfl, h, hback⟩))
  | case10 _ _ _ _ _ _ _ _ h => exact Or.inr (Or.inr (Or.inr ⟨rfl, Nat.le_of_not_lt h⟩))

theorem readChars_escape (x : CodePoint) (t : Text) :
    readChars (escape x ++ t) = (readChars t).map fun (s, r) => (consUnit x s, r) := by
  have hval : (Fin.ofNat 0x110000 x.val) = x := Fin.ofNat_val_eq_self x
  rcases escape_forms x with ⟨e, he, hsimple, hu⟩ | ⟨he, hp, hquote, hback⟩ | ⟨he, h, -⟩ | ⟨he, hbeyond⟩
  · rw [he, List.cons_append, List.cons_append, List.nil_append, readChars_simple hsimple hu, hval]
  · rw [he, List.singleton_append, readChars_plain hp hquote hback, hval]
  · rw [he, readChars_unitEscape h, hval]
  · have hnot : isHigh x = false := by
      simp only [isHigh, Bool.and_eq_false_iff, decide_eq_false_iff_not]
      omega
    have hh := high_lt hbeyond
    have hl := low_lt x.val
    rw [he, List.append_assoc, readChars_unitEscape (by omega), readChars_unitEscape (by omega), Option.map_map]
    refine congrArg (fun f => Option.map f (readChars t)) (funext fun p => ?_)
    simp only [Function.comp_apply]
    rw [consUnit_pair hbeyond, consUnit_of_not_high hnot]

/-- The string with the surrogates that meet joined. -/
def merge (s : Str) : Str := s.foldr consUnit []

theorem zero_mem_consUnit {x : CodePoint} {s : Str} : 0 ∈ consUnit x s ↔ 0 ∈ x :: s := by
  cases s with
  | nil => exact Iff.rfl
  | cons y s =>
    rw [consUnit]
    split
    next hpair =>
      obtain ⟨hx, hy⟩ := Bool.and_eq_true_iff.mp hpair
      simp only [isHigh, isLow, Bool.and_eq_true, decide_eq_true_eq] at hx hy
      have hpaired : 0 ≠ paired x y := by
        intro h
        have hval := congrArg Fin.val h
        simp only [paired, Fin.val_ofNat, Fin.val_zero] at hval
        omega
      have hx0 : 0 ≠ x := by
        rintro rfl
        simp at hx
      have hy0 : 0 ≠ y := by
        rintro rfl
        simp at hy
      simp [hpaired, hx0, hy0]
    next => exact Iff.rfl

theorem zero_mem_merge {s : Str} : 0 ∈ merge s ↔ 0 ∈ s := by
  induction s with
  | nil => exact Iff.rfl
  | cons x s ih =>
    change 0 ∈ consUnit x (merge s) ↔ _
    rw [zero_mem_consUnit, List.mem_cons, List.mem_cons, ih]

/-- No high surrogate stands before a low one. -/
def Unpaired (s : Str) : Prop := s.IsChain fun x y => (isHigh x && isLow y) = false

theorem paired_ne {x y : CodePoint} (hx : isHigh x = true) (hy : isLow y = true) : paired x y ≠ x := by
  simp only [isHigh, isLow, Bool.and_eq_true, decide_eq_true_eq] at hx hy
  intro h
  have hval := congrArg Fin.val h
  simp only [paired, Fin.val_ofNat] at hval
  rw [Nat.mod_eq_of_lt (by omega)] at hval
  omega

theorem merge_eq_self_iff {s : Str} : merge s = s ↔ Unpaired s := by
  induction s with
  | nil => exact iff_of_true rfl List.IsChain.nil
  | cons x s ih =>
    change consUnit x (merge s) = x :: s ↔ _
    constructor
    · intro h
      cases hm : merge s with
      | nil =>
        rw [hm] at h ih
        have hs : s = [] := ((List.cons.inj h).2).symm
        rw [hs]
        exact List.IsChain.singleton x
      | cons y m =>
        rw [hm, consUnit] at h
        split at h
        next hpair =>
          obtain ⟨hx, hy⟩ := Bool.and_eq_true_iff.mp hpair
          exact absurd (List.cons.inj h).1 (paired_ne hx hy)
        next hpair =>
          have hs : y :: m = s := (List.cons.inj h).2
          have hself : merge s = s := hm.trans hs
          rw [← hs]
          refine List.IsChain.cons_cons (Bool.not_eq_true _ ▸ hpair) ?_
          rw [hs]
          exact ih.mp hself
    · intro h
      cases s with
      | nil => rfl
      | cons y s =>
        cases h with
        | cons_cons hpair hs =>
          rw [ih.mpr hs, consUnit, hpair]
          rfl

theorem readChars_escapes (s : Str) (r : Text) : readChars (escapes s ++ '"' :: r) = some (merge s, r) := by
  induction s with
  | nil => 
    rw [escapes, List.flatMap_nil, List.nil_append, readChars_quote]
    rfl
  | cons x s ih =>
    rw [escapes, List.flatMap_cons, List.append_assoc, readChars_escape, ← escapes, ih]
    rfl

theorem readChars_dumpStr (s : Str) (r : Text) :
    ∃ t, dumpStr s ++ r = '"' :: t ∧ readChars t = some (merge s, r) := by
  refine ⟨escapes s ++ '"' :: r, ?_, readChars_escapes s r⟩
  rw [dumpStr, List.cons_append, List.cons_append, List.append_assoc, List.singleton_append]

/-! ### Words and numbers -/

def numberChar (c : Char) : Bool := c.isDigit || c == '-' || c == '+' || c == '.' || c == 'e' || c == 'E'

theorem tokenChar_of_numberChar {c : Char} (h : numberChar c = true) : tokenChar c = true := by
  simp only [numberChar, Bool.or_eq_true, beq_iff_eq] at h
  rcases h with ((((h | rfl) | rfl) | rfl) | rfl) | rfl
  · simp [tokenChar, Char.isAlphanum, h]
  all_goals decide

theorem next_numberChar {q q' : NumberState} {c : Char} (h : q.next c = some q') : numberChar c = true := by
  have hdigit : c.isDigit = true → numberChar c = true := fun hc => by simp [numberChar, hc]
  have hchar : c = '-' ∨ c = '0' ∨ c = '.' ∨ (c = 'e' ∨ c = 'E') ∨ (c = '+' ∨ c = '-') → numberChar c = true := by
    rintro (rfl | rfl | rfl | (rfl | rfl) | (rfl | rfl)) <;> decide
  revert h
  fun_cases NumberState.next q c
  all_goals
    intro h
    first
    | cases h; done
    | exact hdigit ‹_›
    | exact hchar (by simp [*])

theorem foldlM_next {q q' : NumberState} {t : Text} (h : t.foldlM NumberState.next q = some q') :
    ∀ c ∈ t, numberChar c = true := by
  induction t generalizing q with
  | nil =>
    intro c hc
    cases hc
  | cons c t ih =>
    rw [List.foldlM_cons] at h
    obtain ⟨q'', hq, ht⟩ := Option.bind_eq_some_iff.mp h
    exact List.forall_mem_cons.mpr ⟨next_numberChar hq, ih ht⟩

theorem numberChar_of_isNumber {t : Text} (h : isNumber t = true) : ∀ c ∈ t, numberChar c = true := by
  unfold isNumber at h
  cases hq : t.foldlM NumberState.next .start with
  | none =>
    rw [hq] at h
    cases h
  | some q => exact foldlM_next hq

theorem isNumber_ne_nil {t : Text} (h : isNumber t = true) : t ≠ [] := by
  rintro rfl
  cases h

/-- The text does not go on with a word or a number. -/
def Ends (r : Text) : Prop := ∀ c ∈ r.head?, tokenChar c = false

theorem ends_nil : Ends [] := by
  intro c hc
  cases hc

theorem ends_cons {c : Char} {r : Text} (h : tokenChar c = false) : Ends (c :: r) := by
  rintro d ⟨⟩
  exact h

theorem takeWhile_token {t r : Text} (ht : ∀ c ∈ t, tokenChar c = true) (hr : Ends r) :
    (t ++ r).takeWhile tokenChar = t ∧ (t ++ r).dropWhile tokenChar = r := by
  rw [List.takeWhile_append_of_pos ht, List.dropWhile_append_of_pos ht]
  cases r with
  | nil => simp
  | cons c r =>
    have hc : ¬ tokenChar c = true := by
      rw [hr c rfl]
      decide
    rw [List.takeWhile_cons_of_neg hc, List.dropWhile_cons_of_neg hc, List.append_nil]
    exact ⟨rfl, rfl⟩

/-- A word or a number is read up to its end. -/
theorem readValue_token {t r : Text} (ht : ∀ c ∈ t, tokenChar c = true) (hne : t ≠ []) (hr : Ends r) (n : ℕ) :
    readValue (n + 1) (t ++ r) = (scalar t).map fun v => (v, r) := by
  obtain ⟨htake, hdrop⟩ := takeWhile_token ht hr
  cases t with
  | nil => exact absurd rfl hne
  | cons c t =>
    have hc : tokenChar c = true := ht c List.mem_cons_self
    have hother : ∀ d : Char, tokenChar d = false → c ≠ d := by
      rintro d hd rfl
      rw [hc] at hd
      cases hd
    rw [List.cons_append] at htake hdrop ⊢
    rw [readValue, if_neg (hother '"' (by decide)), if_neg (hother '[' (by decide)), if_neg (hother '{' (by decide)),
      readScalar, htake, hdrop]

theorem scalar_number (n : Number) : scalar n.literal = some (.num n) := by
  have hword : ∀ t : Text, isNumber t = false → n.literal ≠ t := by
    rintro t ht rfl
    rw [n.wellFormed] at ht
    cases ht
  rw [scalar, if_neg (hword _ (by decide)), if_neg (hword _ (by decide)), if_neg (hword _ (by decide)),
    dif_pos n.wellFormed]

/-! ### Sequences -/

section Sequences
variable {α γ : Type} {read : Text → Option (α × Text)} {close : Char} {text : γ → Text} {value : γ → Option α}
  {xs : List γ} {r : Text}

/-- The text begins with something other than space. -/
def Solid (t : Text) : Prop := ∃ c u, t = c :: u ∧ isSpace c = false

theorem skipSpace_solid {t : Text} (h : Solid t) : skipSpace t = t := by
  obtain ⟨c, u, rfl, hc⟩ := h
  rw [skipSpace, List.dropWhile_cons_of_neg (by simp [hc])]

theorem solid_append {t : Text} (h : Solid t) (r : Text) : Solid (t ++ r) := by
  obtain ⟨c, u, rfl, hc⟩ := h
  exact ⟨c, u ++ r, rfl, hc⟩

/-- Ways to write and to read the members of a sequence that fit together. -/
structure Reads (read : Text → Option (α × Text)) (text : γ → Text) (value : γ → Option α) (xs : List γ) : Prop where
  solid : ∀ x ∈ xs, Solid (text x)
  back : ∀ x ∈ xs, ∀ r, Ends r → read (text x ++ r) = (value x).map fun a => (a, r)

/-- A bracket that ends a sequence. -/
structure Closes (close : Char) : Prop where
  comma : close ≠ ','
  space : isSpace close = false
  token : tokenChar close = false

theorem closes_bracket : Closes ']' := ⟨by decide, by decide, by decide⟩
theorem closes_brace : Closes '}' := ⟨by decide, by decide, by decide⟩

theorem readSequence_joined (hclose : Closes close) (h : Reads read text value xs) (hne : xs ≠ []) {m : ℕ}
    (hm : xs.length ≤ m) {t : Text} (ht : skipSpace t = joined (xs.map text) ++ close :: r) :
    readSequence read close m t = (xs.mapM value).map fun as => (as, r) := by
  induction xs generalizing m t with
  | nil => exact absurd rfl hne
  | cons x xs ih =>
    obtain ⟨m, rfl⟩ : ∃ k, m = k + 1 := ⟨m - 1, by simp only [List.length_cons] at hm; omega⟩
    have hx := h.back x List.mem_cons_self
    rw [readSequence, ht, List.mapM_cons]
    cases xs with
    | nil =>
      change (read (text x ++ close :: r)).bind _ = _
      rw [hx _ (ends_cons hclose.token)]
      cases value x with
      | none => rfl
      | some a =>
        simp only [Option.map_some, Option.bind_some, List.mapM_nil]
        rw [skipSpace_solid ⟨close, r, rfl, hclose.space⟩]
        simp [hclose.comma]
    | cons y ys =>
      have hrest : Reads read text value (y :: ys) :=
        ⟨fun z hz => h.solid z (List.mem_cons_of_mem x hz), fun z hz => h.back z (List.mem_cons_of_mem x hz)⟩
      have hsolid : Solid (joined ((y :: ys).map text) ++ close :: r) := by
        refine solid_append ?_ _
        have hy := h.solid y (List.mem_cons_of_mem x List.mem_cons_self)
        cases ys with
        | nil => exact hy
        | cons z zs => exact solid_append hy _
      have hskip : skipSpace (' ' :: (joined ((y :: ys).map text) ++ close :: r)) =
          joined ((y :: ys).map text) ++ close :: r := by
        rw [skipSpace, List.dropWhile_cons_of_pos (by decide), ← skipSpace, skipSpace_solid hsolid]
      have hnext := ih hrest (List.cons_ne_nil y ys) (m := m) (by simp only [List.length_cons] at hm ⊢; omega) hskip
      have htext : joined ((x :: y :: ys).map text) ++ close :: r =
          text x ++ ',' :: ' ' :: (joined ((y :: ys).map text) ++ close :: r) := by
        simp [joined]
      rw [htext, hx _ (ends_cons (by decide))]
      cases value x with
      | none => rfl
      | some a =>
        simp only [Option.map_some, Option.bind_some]
        rw [skipSpace_solid ⟨',', _, rfl, by decide⟩]
        simp only [↓reduceIte]
        rw [hnext]
        cases (y :: ys).mapM value <;> rfl

theorem readMembers_joined (hclose : Closes close) (h : Reads read text value xs)
    (hfirst : ∀ x ∈ xs, ∀ u, text x ≠ close :: u) :
    readMembers read close (joined (xs.map text) ++ close :: r) = (xs.mapM value).map fun as => (as, r) := by
  cases xs with
  | nil =>
    change readMembers read close (close :: r) = _
    rw [readMembers, skipSpace_solid ⟨close, r, rfl, hclose.space⟩]
    simp
  | cons x xs =>
    obtain ⟨c, u, hx, hc⟩ := h.solid x List.mem_cons_self
    obtain ⟨v, hv⟩ : ∃ v, joined ((x :: xs).map text) ++ close :: r = c :: v := by
      cases xs with
      | nil => exact ⟨u ++ close :: r, by simp [joined, hx]⟩
      | cons y ys => exact ⟨_, by simp [joined, hx]; rfl⟩
    have hskip : skipSpace (c :: v) = c :: v := skipSpace_solid ⟨c, v, rfl, hc⟩
    have hne : c ≠ close := by
      rintro rfl
      exact hfirst x List.mem_cons_self u hx
    have hlength : (x :: xs).length ≤ (c :: v).length := by
      have hjoined : ∀ ys : List γ, ys.length ≤ (joined (ys.map text)).length + 1 := by
        intro ys
        induction ys with
        | nil => simp
        | cons y ys ih =>
          cases ys with
          | nil => simp
          | cons z zs =>
            simp only [List.map_cons, joined, List.length_append, List.length_cons] at ih ⊢
            omega
      rw [← hv, List.length_append]
      have := hjoined (x :: xs)
      simp only [List.length_cons] at this ⊢
      omega
    rw [readMembers, hv, hskip]
    simp only [if_neg hne]
    exact readSequence_joined hclose h (List.cons_ne_nil x xs) hlength (hskip.trans hv.symm)

end Sequences

/-! ### Documents -/

/-- What reading the text of a value gives. -/
def decode (v : Value) : Option Value := if finite v then some (mapStrings merge v) else none

theorem mapM_decode (items : List Value) :
    items.mapM decode = if finiteItems items then some (mapItems merge items) else none := by
  induction items with
  | nil => rfl
  | cons v vs ih =>
    rw [List.mapM_cons, ih, decode]
    cases hv : finite v with
    | false => simp [finiteItems, hv]
    | true => cases hvs : finiteItems vs <;> simp [finiteItems, mapItems, hv, hvs]

theorem mapM_decode_fields (fields : List (Str × Value)) :
    (fields.mapM fun kv => (decode kv.2).map fun v => (merge kv.1, v)) =
      if finiteFields fields then some (mapFields merge fields) else none := by
  induction fields with
  | nil => rfl
  | cons kv fs ih =>
    rw [List.mapM_cons, ih, decode]
    cases hv : finite kv.2 with
    | false => simp [finiteFields, hv]
    | true => cases hvs : finiteFields fs <;> simp [finiteFields, mapFields, hv, hvs]

/-- The value is written as a word or a number. -/
def isToken : Value → Bool
  | .null | .bool _ | .num _ | .nonFinite _ => true
  | .str _ | .arr _ | .obj _ => false

theorem dump_token {v : Value} (hv : isToken v = true) :
    (∀ c ∈ dump v, tokenChar c = true) ∧ dump v ≠ [] ∧ scalar (dump v) = decode v := by
  cases v with
  | null => exact ⟨List.all_eq_true.mp rfl, by decide, rfl⟩
  | bool b => cases b <;> exact ⟨List.all_eq_true.mp rfl, by decide, rfl⟩
  | num n =>
    refine ⟨fun c hc => tokenChar_of_numberChar (numberChar_of_isNumber n.wellFormed c hc), ?_, ?_⟩
    · exact isNumber_ne_nil n.wellFormed
    · exact scalar_number n
  | nonFinite x => cases x <;> exact ⟨List.all_eq_true.mp rfl, by decide, rfl⟩
  | str s => cases hv
  | arr items => cases hv
  | obj fields => cases hv

theorem dump_head (v : Value) : ∃ c u, dump v = c :: u ∧ (tokenChar c = true ∨ c = '"' ∨ c = '[' ∨ c = '{') := by
  have hword : ∀ {v : Value}, isToken v = true →
      ∃ c u, dump v = c :: u ∧ (tokenChar c = true ∨ c = '"' ∨ c = '[' ∨ c = '{') := by
    intro v hv
    obtain ⟨htoken, hne, -⟩ := dump_token hv
    obtain ⟨c, u, hc⟩ := List.exists_cons_of_ne_nil hne
    exact ⟨c, u, hc, Or.inl (htoken c (by rw [hc]; exact List.mem_cons_self))⟩
  cases v with
  | str s => exact ⟨'"', _, rfl, Or.inr (Or.inl rfl)⟩
  | arr items => exact ⟨'[', _, rfl, Or.inr (Or.inr (Or.inl rfl))⟩
  | obj fields => exact ⟨'{', _, rfl, Or.inr (Or.inr (Or.inr rfl))⟩
  | null => exact hword rfl
  | bool b => exact hword rfl
  | num n => exact hword rfl
  | nonFinite x => exact hword rfl

theorem dump_solid (v : Value) : Solid (dump v) := by
  obtain ⟨c, u, hv, hc⟩ := dump_head v
  refine ⟨c, u, hv, ?_⟩
  rcases hc with hc | rfl | rfl | rfl
  · rw [← Bool.not_eq_true]
    intro hspace
    simp only [isSpace, Bool.or_eq_true, beq_iff_eq] at hspace
    rcases hspace with ((rfl | rfl) | rfl) | rfl <;> cases hc
  all_goals rfl

theorem dump_ne_bracket (v : Value) (u : Text) : dump v ≠ ']' :: u := by
  obtain ⟨c, w, hv, hc⟩ := dump_head v
  rw [hv]
  rintro ⟨⟩
  rcases hc with hc | hc | hc | hc <;> cases hc

theorem length_joined {t : Text} {ts : List Text} (h : t ∈ ts) : t.length ≤ (joined ts).length := by
  induction ts with
  | nil => cases h
  | cons u ts ih =>
    cases ts with
    | nil =>
      rw [List.mem_singleton.mp h]
      exact Nat.le_refl _
    | cons w ws =>
      simp only [joined, List.length_append, List.length_cons]
      rcases List.mem_cons.mp h with rfl | hmem
      · omega
      · have := ih hmem
        omega

theorem readField_dumpField {n : ℕ} {k : Str} {v : Value} {r : Text}
    (h : readValue n (dump v ++ r) = (decode v).map fun w => (w, r)) :
    readField (readValue n) (dumpField k (dump v) ++ r) =
      ((decode v).map fun w => (merge k, w)).map fun kv => (kv, r) := by
  have htext : dumpField k (dump v) ++ r = dumpStr k ++ ':' :: ' ' :: (dump v ++ r) := by simp [dumpField]
  obtain ⟨t, ht, hread⟩ := readChars_dumpStr k (':' :: ' ' :: (dump v ++ r))
  have hskip : skipSpace (' ' :: (dump v ++ r)) = dump v ++ r := by
    rw [skipSpace, List.dropWhile_cons_of_pos (by decide), ← skipSpace, skipSpace_solid (solid_append (dump_solid v) r)]
  rw [htext, ht, readField, if_pos rfl, hread, Option.bind_some]
  simp only
  rw [skipSpace_solid ⟨':', _, rfl, by decide⟩]
  simp only [↓reduceIte]
  rw [hskip, h]
  cases decode v <;> rfl

/-- What was written is read back, with fuel for its depth. -/
theorem readValue_dump (v : Value) : ∀ n r, (dump v).length < n → Ends r →
    readValue n (dump v ++ r) = (decode v).map fun w => (w, r) := by
  have htoken : ∀ {v : Value}, isToken v = true → ∀ n r, (dump v).length < n → Ends r →
      readValue n (dump v ++ r) = (decode v).map fun w => (w, r) := by
    intro v hv n r hn hr
    obtain ⟨hall, hne, hscalar⟩ := dump_token hv
    obtain ⟨n, rfl⟩ : ∃ k, n = k + 1 := ⟨n - 1, by omega⟩
    rw [readValue_token hall hne hr, hscalar]
  induction v using Value.byMembers with
  | null => exact htoken rfl
  | bool b => exact htoken rfl
  | num x => exact htoken rfl
  | nonFinite x => exact htoken rfl
  | str s =>
    intro n r hn _
    obtain ⟨n, rfl⟩ : ∃ k, n = k + 1 := ⟨n - 1, by omega⟩
    obtain ⟨t, ht, hread⟩ := readChars_dumpStr s r
    rw [dump, ht, readValue, if_pos rfl, hread]
    rfl
  | arr items ih =>
    intro n r hn _
    obtain ⟨n, rfl⟩ : ∃ k, n = k + 1 := ⟨n - 1, by omega⟩
    have hfit : Reads (readValue n) dump decode items := by
      refine ⟨fun v _ => dump_solid v, fun v hv r hr => ih v hv n r ?_ hr⟩
      have hle := length_joined (List.mem_map_of_mem (f := dump) hv)
      rw [dump_arr] at hn
      simp only [List.length_append, List.length_cons, List.length_nil] at hn
      omega
    have hmembers := readMembers_joined (r := r) closes_bracket hfit
      fun v _ u => dump_ne_bracket v u
    have htext : dump (.arr items) ++ r = '[' :: (joined (items.map dump) ++ ']' :: r) := by
      rw [dump_arr]
      simp
    rw [htext, readValue, if_neg (by decide), if_pos rfl, hmembers, mapM_decode, decode, finite]
    cases finiteItems items <;> rfl
  | obj fields ih =>
    intro n r hn _
    obtain ⟨n, rfl⟩ : ∃ k, n = k + 1 := ⟨n - 1, by omega⟩
    have hfit : Reads (readField (readValue n)) (fun kv : Str × Value => dumpField kv.1 (dump kv.2))
        (fun kv => (decode kv.2).map fun v => (merge kv.1, v)) fields := by
      refine ⟨fun kv _ => ⟨'"', _, rfl, rfl⟩, fun kv hkv r hr => readField_dumpField (ih kv hkv n r ?_ hr)⟩
      have hle := length_joined (List.mem_map_of_mem (f := fun kv : Str × Value => dumpField kv.1 (dump kv.2)) hkv)
      have hfield : (dump kv.2).length ≤ (dumpField kv.1 (dump kv.2)).length := by
        simp only [dumpField, List.length_append, List.length_cons]
        omega
      rw [dump_obj] at hn
      simp only [List.length_append, List.length_cons, List.length_nil] at hn
      omega
    have hmembers := readMembers_joined (r := r) closes_brace hfit
      fun kv _ u h => by cases h
    have htext : dump (.obj fields) ++ r =
        '{' :: (joined (fields.map fun kv => dumpField kv.1 (dump kv.2)) ++ '}' :: r) := by
      rw [dump_obj]
      simp
    rw [htext, readValue, if_neg (by decide), if_neg (by decide), if_pos rfl, hmembers, mapM_decode_fields, decode,
      finite]
    cases finiteFields fields <;> rfl

/-- The document of a value is read as the value that it decodes to. -/
theorem read_dump (v : Value) : read (dump v) = decode v := by
  have h := readValue_dump v ((dump v).length + 1) [] (Nat.lt_succ_self _) ends_nil
  rw [List.append_nil] at h
  rw [read, skipSpace_solid (dump_solid v), h]
  cases decode v <;> rfl

end ReleaseValidation.JsonTexts
