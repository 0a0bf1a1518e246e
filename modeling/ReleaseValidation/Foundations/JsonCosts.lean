import ReleaseValidation.Foundations.JsonReading

/-! # How short a document can be

A text of printable ASCII that is read as a value has at least as many letters `u` as the
text that is written for the value: each character that has to be escaped by its number
costs one, and so does the letter itself, however it is written.
-/
namespace ReleaseValidation.JsonTexts

def Printable (t : Text) : Prop := ∀ c ∈ t, 0x20 ≤ c.toNat ∧ c.toNat ≤ 0x7e

/-- The number of letters `u`. -/
def cost (t : Text) : ℕ := t.count 'u'

@[simp] theorem cost_append (t u : Text) : cost (t ++ u) = cost t + cost u := List.count_append

@[simp] theorem cost_nil : cost [] = 0 := rfl

theorem cost_cons (c : Char) (t : Text) : cost (c :: t) = cost [c] + cost t := cost_append [c] t

@[simp] theorem cost_cons_of_ne {c : Char} (h : c ≠ 'u') (t : Text) : cost (c :: t) = cost t :=
  List.count_cons_of_ne h

theorem Printable.append_iff {t u : Text} : Printable (t ++ u) ↔ Printable t ∧ Printable u := List.forall_mem_append

theorem Printable.cons_iff {c : Char} {t : Text} :
    Printable (c :: t) ↔ (0x20 ≤ c.toNat ∧ c.toNat ≤ 0x7e) ∧ Printable t := List.forall_mem_cons

theorem printable_nil : Printable [] := by
  intro c hc
  cases hc

theorem Printable.sublist {t u : Text} (h : Printable u) (hs : t.Sublist u) : Printable t :=
  fun c hc => h c (hs.subset hc)

/-! ### The written texts are printable -/

theorem digitChar_facts (d : ℕ) (h : d < 16) :
    (0x20 ≤ (Nat.digitChar d).toNat ∧ (Nat.digitChar d).toNat ≤ 0x7e) ∧ Nat.digitChar d ≠ 'u' := by
  have hall : ∀ d : Fin 16, (0x20 ≤ (Nat.digitChar d.val).toNat ∧ (Nat.digitChar d.val).toNat ≤ 0x7e) ∧
      Nat.digitChar d.val ≠ 'u' := by decide
  exact hall ⟨d, h⟩

theorem cost_unitEscape (x : ℕ) : cost (unitEscape x) = 1 := by
  have hne : ∀ y : ℕ, Nat.digitChar (y % 16) ≠ 'u' := fun y => (digitChar_facts _ (Nat.mod_lt y (by decide))).2
  rw [unitEscape, cost_cons_of_ne (by decide), cost_cons, cost_cons_of_ne (hne _), cost_cons_of_ne (hne _),
    cost_cons_of_ne (hne _), cost_cons_of_ne (hne _)]
  rfl

theorem printable_unitEscape (x : ℕ) : Printable (unitEscape x) := by
  have hdigit : ∀ y : ℕ, 0x20 ≤ (Nat.digitChar (y % 16)).toNat ∧ (Nat.digitChar (y % 16)).toNat ≤ 0x7e :=
    fun y => (digitChar_facts _ (Nat.mod_lt y (by decide))).1
  rw [unitEscape]
  simp only [Printable.cons_iff]
  exact ⟨by decide, by decide, hdigit _, hdigit _, hdigit _, hdigit _, printable_nil⟩

/-- The letters of the short escapes, with their code points. -/
def simpleEscapes : List (Char × ℕ) :=
  [('"', 0x22), ('\\', 0x5c), ('/', 0x2f), ('b', 0x08), ('f', 0x0c), ('n', 0x0a), ('r', 0x0d), ('t', 0x09)]

theorem mem_simpleEscapes {e : Char} {x : ℕ} (h : simpleEscape e = some x) : (e, x) ∈ simpleEscapes := by
  unfold simpleEscape at h
  unfold simpleEscapes
  grind

/-- The forms of a written character. -/
theorem escape_cases (x : CodePoint) :
    (∃ e, escape x = ['\\', e] ∧ e ≠ 'u' ∧ (0x20 ≤ e.toNat ∧ e.toNat ≤ 0x7e) ∧ (e = '\\' ↔ x.val = 0x5c) ∧ x.val ≠ 0) ∨
      (∃ c, escape x = [c] ∧ c.toNat = x.val ∧ (0x20 ≤ c.toNat ∧ c.toNat ≤ 0x7e) ∧ c ≠ '\\' ∧ c ≠ '"') ∨
      (escape x = unitEscape x.val ∧ x.val < 0x10000 ∧ x.val ≠ 0x5c) ∨
      (escape x = unitEscape (high x.val) ++ unitEscape (low x.val) ∧ 0x10000 ≤ x.val) := by
  rcases escape_forms x with ⟨e, he, hsimple, hu⟩ | ⟨he, hp, hquote, hback⟩ | h | h
  · have hfacts : ∀ p ∈ simpleEscapes,
        (0x20 ≤ p.1.toNat ∧ p.1.toNat ≤ 0x7e) ∧ (p.1 = '\\' ↔ p.2 = 0x5c) ∧ p.2 ≠ 0 := by decide
    exact Or.inl ⟨e, he, hu, hfacts _ (mem_simpleEscapes hsimple)⟩
  · simp only [printable, Bool.and_eq_true, decide_eq_true_eq] at hp
    have hnat : (Char.ofNat x.val).toNat = x.val := toNat_ofNat (by omega)
    have hne : ∀ c : Char, c.toNat ≠ x.val → Char.ofNat x.val ≠ c := by
      rintro c hc rfl
      exact hc hnat
    have hne1 : Char.ofNat x.val ≠ '\\' := hne '\\' (Ne.symm hback)
    have hne2 : Char.ofNat x.val ≠ '"' := hne '"' (Ne.symm hquote)
    exact Or.inr (Or.inl ⟨_, he, hnat, by rw [hnat]; exact hp, hne1, hne2⟩)
  · exact Or.inr (Or.inr (Or.inl h))
  · exact Or.inr (Or.inr (Or.inr h))

theorem printable_escape (x : CodePoint) : Printable (escape x) := by
  rcases escape_cases x with ⟨e, he, -, hp, -⟩ | ⟨c, hc, -, hp, -⟩ | ⟨he, -⟩ | ⟨he, -⟩
  · rw [he]
    exact Printable.cons_iff.mpr ⟨by decide, Printable.cons_iff.mpr ⟨hp, printable_nil⟩⟩
  · rw [hc]
    exact Printable.cons_iff.mpr ⟨hp, printable_nil⟩
  · rw [he]
    exact printable_unitEscape _
  · rw [he]
    exact Printable.append_iff.mpr ⟨printable_unitEscape _, printable_unitEscape _⟩

theorem printable_dumpStr (s : Str) : Printable (dumpStr s) := by
  have hescapes : Printable (escapes s) := by
    intro c hc
    obtain ⟨x, -, hx⟩ := List.mem_flatMap.mp hc
    exact printable_escape x c hx
  exact Printable.cons_iff.mpr ⟨by decide, Printable.append_iff.mpr ⟨hescapes, Printable.cons_iff.mpr
    ⟨by decide, printable_nil⟩⟩⟩

theorem printable_joined {ts : List Text} (h : ∀ t ∈ ts, Printable t) : Printable (joined ts) := by
  induction ts with
  | nil => exact printable_nil
  | cons t ts ih =>
    obtain ⟨ht, hts⟩ := List.forall_mem_cons.mp h
    cases ts with
    | nil => exact ht
    | cons u us =>
      exact Printable.append_iff.mpr ⟨ht, Printable.cons_iff.mpr ⟨by decide, Printable.cons_iff.mpr ⟨by decide, ih hts⟩⟩⟩

theorem printable_of_numberChar {c : Char} (h : numberChar c = true) : 0x20 ≤ c.toNat ∧ c.toNat ≤ 0x7e := by
  simp only [numberChar, Bool.or_eq_true, beq_iff_eq] at h
  rcases h with ((((h | rfl) | rfl) | rfl) | rfl) | rfl
  · simp only [Char.isDigit, Bool.and_eq_true, decide_eq_true_eq] at h
    obtain ⟨h1, h2⟩ := h
    have h1' : 48 ≤ c.toNat := h1
    have h2' : c.toNat ≤ 57 := h2
    omega
  all_goals decide

theorem printable_dump (v : Value) : Printable (dump v) := by
  have hdecide : ∀ t : Text, (t.all fun c => decide (0x20 ≤ c.toNat ∧ c.toNat ≤ 0x7e)) = true → Printable t := by
    intro t ht c hc
    exact of_decide_eq_true (List.all_eq_true.mp ht c hc)
  induction v using Value.byMembers with
  | null => exact hdecide _ rfl
  | bool b => cases b <;> exact hdecide _ rfl
  | num n => exact fun c hc => printable_of_numberChar (numberChar_of_isNumber n.wellFormed c hc)
  | nonFinite x => cases x <;> exact hdecide _ rfl
  | str s => exact printable_dumpStr s
  | arr items ih =>
    rw [dump_arr]
    refine Printable.cons_iff.mpr ⟨by decide, Printable.append_iff.mpr ⟨printable_joined ?_, hdecide _ rfl⟩⟩
    exact List.forall_mem_map.mpr ih
  | obj fields ih =>
    rw [dump_obj]
    refine Printable.cons_iff.mpr ⟨by decide, Printable.append_iff.mpr ⟨printable_joined ?_, hdecide _ rfl⟩⟩
    refine List.forall_mem_map.mpr fun kv hkv => ?_
    exact Printable.append_iff.mpr ⟨printable_dumpStr kv.1, Printable.cons_iff.mpr
      ⟨by decide, Printable.cons_iff.mpr ⟨by decide, ih kv hkv⟩⟩⟩

/-! ### A text that is read costs as much as the one that is written -/

theorem cost_escape_le_one {x : CodePoint} (h : x.val < 0x10000) : cost (escape x) ≤ 1 := by
  rcases escape_cases x with ⟨e, he, hu, -⟩ | ⟨c, hc, -⟩ | ⟨he, -⟩ | ⟨-, hbeyond⟩
  · rw [he, cost_cons_of_ne (by decide), cost_cons_of_ne hu]
    exact Nat.zero_le 1
  · rw [hc]
    exact List.count_le_length
  · rw [he, cost_unitEscape]
  · omega

theorem cost_escape_le_two (x : CodePoint) : cost (escape x) ≤ 2 := by
  by_cases h : x.val < 0x10000
  · exact (cost_escape_le_one h).trans (by decide)
  · rcases escape_cases x with ⟨e, he, hu, -⟩ | ⟨c, hc, -⟩ | ⟨-, hx, -⟩ | ⟨he, -⟩
    · rw [he, cost_cons_of_ne (by decide), cost_cons_of_ne hu]
      exact Nat.zero_le 2
    · have hone : cost [c] ≤ 1 := List.count_le_length
      rw [hc]
      omega
    · exact absurd hx h
    · rw [he, cost_append, cost_unitEscape, cost_unitEscape]

theorem cost_escape_surrogate {x : CodePoint} (h : isHigh x = true ∨ isLow x = true) : cost (escape x) = 1 := by
  simp only [isHigh, isLow, Bool.and_eq_true, decide_eq_true_eq] at h
  have hescape : escape x = unitEscape x.val := by
    have hx : 0xd800 ≤ x.val ∧ x.val < 0x10000 := by omega
    have hp : printable x.val = false := by
      simp only [printable, Bool.and_eq_false_iff, decide_eq_false_iff_not]
      omega
    unfold escape
    rw [if_neg (by omega), if_neg (by omega), if_neg (by omega), if_neg (by omega), if_neg (by omega),
      if_neg (by omega), if_neg (by omega), hp, if_neg (by decide), if_pos hx.2]
  rw [hescape, cost_unitEscape]

theorem escapes_cons (x : CodePoint) (s : Str) : escapes (x :: s) = escape x ++ escapes s := List.flatMap_cons

theorem cost_consUnit (x : CodePoint) (s : Str) : cost (escapes (consUnit x s)) ≤ cost (escape x) + cost (escapes s) := by
  cases s with
  | nil => rw [consUnit, escapes_cons, cost_append]
  | cons y s =>
    rw [consUnit]
    split
    next hpair =>
      obtain ⟨hx, hy⟩ := Bool.and_eq_true_iff.mp hpair
      have hx1 := cost_escape_surrogate (Or.inl hx)
      have hy1 := cost_escape_surrogate (Or.inr hy)
      have h2 := cost_escape_le_two (paired x y)
      rw [escapes_cons, escapes_cons, cost_append, cost_append]
      omega
    next => rw [escapes_cons, cost_append]

theorem hexUnit_lt {a b c d : Char} {x : ℕ} (h : hexUnit a b c d = some x) : x < 0x10000 := by
  have hdigit : ∀ {c : Char} {y : ℕ}, hexDigit c = some y → y < 16 := by
    intro c y hy
    unfold hexDigit at hy
    split at hy
    next hc =>
      cases hy
      simp only [Char.isDigit, Bool.and_eq_true, decide_eq_true_eq] at hc
      have h2 : c.toNat ≤ 57 := hc.2
      have h0 : '0'.toNat = 48 := rfl
      omega
    next =>
    split at hy
    next hc =>
      cases hy
      have h2 : c.toNat ≤ 102 := hc.2
      have h0 : 'a'.toNat = 97 := rfl
      omega
    next =>
    split at hy
    next hc =>
      cases hy
      have h2 : c.toNat ≤ 70 := hc.2
      have h0 : 'A'.toNat = 65 := rfl
      omega
    next => cases hy
  obtain ⟨a', ha, h⟩ := Option.bind_eq_some_iff.mp h
  obtain ⟨b', hb, h⟩ := Option.bind_eq_some_iff.mp h
  obtain ⟨c', hc, h⟩ := Option.bind_eq_some_iff.mp h
  obtain ⟨d', hd, h⟩ := Option.bind_eq_some_iff.mp h
  cases h
  have := hdigit ha
  have := hdigit hb
  have := hdigit hc
  have := hdigit hd
  omega

theorem cost_unit {p : Text} {x : CodePoint} (h : Unit p x) (hp : Printable p) : cost (escape x) ≤ cost p := by
  cases h with
  | @plain c hq hb hc =>
    obtain ⟨hprint, -⟩ := Printable.cons_iff.mp hp
    have hval := val_ofNat_char c
    have hne : ∀ d : Char, c ≠ d → c.toNat ≠ d.toNat := fun d hd heq => hd (Char.toNat_inj.mp heq)
    have hq' : c.toNat ≠ 0x22 := hne '"' hq
    have hb' : c.toNat ≠ 0x5c := hne '\\' hb
    have hwritten : escape (Fin.ofNat _ c.toNat) = [c] := by
      unfold escape
      rw [hval, if_neg hq', if_neg hb', if_neg (by omega), if_neg (by omega), if_neg (by omega), if_neg (by omega),
        if_neg (by omega), if_pos (by simp [printable, hprint]), Char.ofNat_toNat]
    rw [hwritten]
  | @hex h₁ h₂ h₃ h₄ x h =>
    have hlt := hexUnit_lt h
    have hval : (Fin.ofNat 0x110000 x).val = x := Nat.mod_eq_of_lt (by omega)
    refine (cost_escape_le_one (by rw [hval]; exact hlt)).trans ?_
    rw [cost_cons_of_ne (by decide), cost_cons]
    exact Nat.le_add_right 1 _
  | @short e x h hu =>
    have hzero : ∀ p ∈ simpleEscapes, cost (escape (Fin.ofNat _ p.2)) = 0 := by decide
    rw [hzero _ (mem_simpleEscapes h)]
    exact Nat.zero_le _

theorem cost_readChars {t r : Text} {s : Str} (h : readChars t = some (s, r)) (ht : Printable t) :
    Printable r ∧ cost (escapes s) + cost r ≤ cost t := by
  refine readChars_induction (P := fun t s => Printable t → Printable r ∧ cost (escapes s) + cost r ≤ cost t)
    ?_ ?_ h ht
  · intro hp
    rw [cost_cons_of_ne (by decide)]
    exact ⟨(Printable.cons_iff.mp hp).2, by simp [escapes]⟩
  · intro p x t s hunit ih hp
    obtain ⟨hp1, hp2⟩ := Printable.append_iff.mp hp
    obtain ⟨hr, hle⟩ := ih hp2
    have h1 := cost_unit hunit hp1
    have h2 := cost_consUnit x s
    refine ⟨hr, ?_⟩
    rw [cost_append]
    omega

section Sequences
variable {α : Type} {read : Text → Option (α × Text)} {close : Char} {price : α → ℕ}

/-- What is read of a printable text costs no more than the text. -/
def Spends (read : Text → Option (α × Text)) (price : α → ℕ) : Prop :=
  ∀ t x r, read t = some (x, r) → Printable t → Printable r ∧ price x + cost r ≤ cost t

theorem cost_skipSpace {t : Text} (ht : Printable t) : Printable (skipSpace t) ∧ cost (skipSpace t) ≤ cost t :=
  ⟨ht.sublist (List.dropWhile_sublist _), (List.dropWhile_sublist _).count_le 'u'⟩

/-- A character behind space. -/
theorem cost_skipSpace_cons {t r : Text} {c : Char} (h : skipSpace t = c :: r) (ht : Printable t) :
    Printable r ∧ cost r ≤ cost t := by
  obtain ⟨hp, hle⟩ := cost_skipSpace ht
  rw [h] at hp hle
  refine ⟨(Printable.cons_iff.mp hp).2, ?_⟩
  rw [cost_cons] at hle
  omega

theorem cost_readSequence (h : Spends read price) (m : ℕ) :
    Spends (readSequence read close m) fun xs => (xs.map price).sum := by
  induction m with
  | zero =>
    intro t xs r ht
    cases ht
  | succ m ih =>
    intro t xs r ht hp
    rw [readSequence] at ht
    obtain ⟨⟨x, r₁⟩, hread, ht⟩ := Option.bind_eq_some_iff.mp ht
    obtain ⟨hp0, hle0⟩ := cost_skipSpace hp
    obtain ⟨hp1, hle1⟩ := h _ x r₁ hread hp0
    cases hs : skipSpace r₁ with
    | nil =>
      simp only [hs] at ht
      cases ht
    | cons c r₂ =>
      obtain ⟨hp2, hle2⟩ := cost_skipSpace_cons hs hp1
      simp only [hs] at ht
      split at ht
      next =>
        obtain ⟨⟨ys, r₃⟩, hrest, heq⟩ := Option.map_eq_some_iff.mp ht
        cases heq
        obtain ⟨hp3, hle3⟩ := ih r₂ ys _ hrest hp2
        refine ⟨hp3, ?_⟩
        simp only [List.map_cons, List.sum_cons] at hle3 ⊢
        omega
      next =>
        split at ht
        next =>
          cases ht
          refine ⟨hp2, ?_⟩
          simp only [List.map_cons, List.map_nil, List.sum_cons, List.sum_nil]
          omega
        next => cases ht

theorem cost_readMembers (h : Spends read price) : Spends (readMembers read close) fun xs => (xs.map price).sum := by
  intro t xs r ht hp
  unfold readMembers at ht
  cases hs : skipSpace t with
  | nil =>
    simp only [hs] at ht
    cases ht
  | cons c r₁ =>
    obtain ⟨hp1, hle1⟩ := cost_skipSpace_cons hs hp
    simp only [hs] at ht
    split at ht
    next =>
      cases ht
      exact ⟨hp1, by simpa using hle1⟩
    next => exact cost_readSequence h t.length t xs r ht hp

theorem cost_readField (h : Spends read price) :
    Spends (readField read) fun kv => cost (escapes kv.1) + price kv.2 := by
  intro t kv r ht hp
  cases t with
  | nil => cases ht
  | cons c t =>
    rw [readField] at ht
    split at ht
    next hc =>
      subst hc
      obtain ⟨⟨k, r₁⟩, hread, ht⟩ := Option.bind_eq_some_iff.mp ht
      obtain ⟨hp1, hle1⟩ := cost_readChars hread (Printable.cons_iff.mp hp).2
      cases hs : skipSpace r₁ with
      | nil =>
        simp only [hs] at ht
        cases ht
      | cons d r₂ =>
        obtain ⟨hp2, hle2⟩ := cost_skipSpace_cons hs hp1
        obtain ⟨hp3, hle3⟩ := cost_skipSpace hp2
        simp only [hs] at ht
        split at ht
        next =>
          obtain ⟨⟨v, r₃⟩, hv, heq⟩ := Option.map_eq_some_iff.mp ht
          cases heq
          obtain ⟨hp4, hle4⟩ := h _ v _ hv hp3
          refine ⟨hp4, ?_⟩
          rw [cost_cons_of_ne (by decide)]
          simp only
          omega
        next => cases ht
    next => cases ht

end Sequences

theorem cost_joined (ts : List Text) : cost (joined ts) = (ts.map cost).sum := by
  induction ts with
  | nil => rfl
  | cons t ts ih =>
    cases ts with
    | nil => simp [joined]
    | cons u us => simp only [joined, cost_append, List.map_cons, List.sum_cons, ih, cost_cons_of_ne (by decide : ',' ≠ 'u'),
        cost_cons_of_ne (by decide : ' ' ≠ 'u')]

theorem cost_dumpStr (s : Str) : cost (dumpStr s) = cost (escapes s) := by
  rw [dumpStr, List.cons_append, cost_cons_of_ne (by decide), cost_append, cost_cons_of_ne (by decide), cost_nil, Nat.add_zero]

theorem cost_dump_arr (items : List Value) : cost (dump (.arr items)) = (items.map fun v => cost (dump v)).sum := by
  rw [dump_arr, List.cons_append, cost_cons_of_ne (by decide), cost_append, cost_joined, List.map_map,
    cost_cons_of_ne (by decide), cost_nil, Nat.add_zero]
  rfl

theorem cost_dump_obj (fields : List (Str × Value)) :
    cost (dump (.obj fields)) = (fields.map fun kv => cost (escapes kv.1) + cost (dump kv.2)).sum := by
  have hfield : ∀ kv : Str × Value, cost (dumpField kv.1 (dump kv.2)) = cost (escapes kv.1) + cost (dump kv.2) := by
    intro kv
    rw [dumpField, cost_append, cost_dumpStr, cost_cons_of_ne (by decide), cost_cons_of_ne (by decide)]
  rw [dump_obj, List.cons_append, cost_cons_of_ne (by decide), cost_append, cost_joined, List.map_map,
    cost_cons_of_ne (by decide), cost_nil, Nat.add_zero]
  exact congrArg List.sum (List.map_congr_left fun kv _ => hfield kv)

theorem dump_of_scalar {t : Text} {v : Value} (h : scalar t = some v) : dump v = t := by
  unfold scalar at h
  split at h
  next ht =>
    cases h
    exact ht.symm
  next =>
  split at h
  next ht =>
    cases h
    exact ht.symm
  next =>
  split at h
  next ht =>
    cases h
    exact ht.symm
  next =>
  split at h
  next =>
    cases h
    rfl
  next => cases h

/-- A printable text is at least as costly as the one that is written for what is read. -/
theorem cost_readValue (n : ℕ) : Spends (readValue n) fun v => cost (dump v) := by
  induction n with
  | zero =>
    intro t v r h
    cases h
  | succ n ih =>
    intro t v r h hp
    cases t with
    | nil => cases h
    | cons c t =>
      obtain ⟨-, hpt⟩ := Printable.cons_iff.mp hp
      rw [readValue] at h
      split at h
      next hc =>
        obtain ⟨⟨s, r'⟩, hread, heq⟩ := Option.map_eq_some_iff.mp h
        cases heq
        subst hc
        change Printable _ ∧ cost (dump (.str s)) + cost _ ≤ _
        rw [dump, cost_dumpStr, cost_cons_of_ne (by decide)]
        exact cost_readChars hread hpt
      next =>
      split at h
      next hc =>
        obtain ⟨⟨xs, r'⟩, hread, heq⟩ := Option.map_eq_some_iff.mp h
        cases heq
        subst hc
        change Printable _ ∧ cost (dump (.arr xs)) + cost _ ≤ _
        rw [cost_dump_arr, cost_cons_of_ne (by decide)]
        exact cost_readMembers ih t xs _ hread hpt
      next =>
      split at h
      next hc =>
        obtain ⟨⟨fs, r'⟩, hread, heq⟩ := Option.map_eq_some_iff.mp h
        cases heq
        subst hc
        change Printable _ ∧ cost (dump (.obj fs)) + cost _ ≤ _
        rw [cost_dump_obj, cost_cons_of_ne (by decide)]
        exact cost_readMembers (cost_readField ih) t fs _ hread hpt
      next =>
        obtain ⟨w, hw, heq⟩ := Option.map_eq_some_iff.mp h
        cases heq
        change Printable _ ∧ cost (dump _) + cost _ ≤ _
        rw [dump_of_scalar hw, ← cost_append, List.takeWhile_append_dropWhile]
        exact ⟨hp.sublist (List.dropWhile_sublist _), Nat.le_refl _⟩

theorem cost_read {t : Text} {v : Value} (h : read t = some v) (ht : Printable t) : cost (dump v) ≤ cost t := by
  obtain ⟨⟨w, r⟩, hread, h⟩ := Option.bind_eq_some_iff.mp h
  obtain ⟨hp, hle⟩ := cost_skipSpace ht
  have hle' : cost (dump w) + cost r ≤ cost (skipSpace t) := (cost_readValue _ _ w r hread hp).2
  simp only at h
  split at h
  next =>
    cases h
    omega
  next => cases h

end ReleaseValidation.JsonTexts
