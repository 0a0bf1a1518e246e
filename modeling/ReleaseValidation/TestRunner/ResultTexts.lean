import ReleaseValidation.Foundations.JsonCosts

/-! # The text of assertion results

Before the results of a test are stored, `\u0000` is removed from their JSON text, since the
column takes no NUL. The removal works on the escaped text: behind an escaped backslash the
letters `u0000` look like the escape of a NUL, and half of the backslash goes with them.
-/
namespace ReleaseValidation.TestRunner.ResultTexts
open JsonTexts

/-- `.replace('\\u0000', '')`. -/
def dropEscapes : Text → Text
  | '\\' :: 'u' :: '0' :: '0' :: '0' :: '0' :: t => dropEscapes t
  | c :: t => c :: dropEscapes t
  | [] => []

/-- What is sent for the column `assertion_results`. -/
def storedText (results : List JsonTexts.Value) : Text := dropEscapes (dump (.arr results))

/-- The string without its NULs. -/
def dropNul (s : Str) : Str := s.filter (· ≠ 0)

/-- The text is a document of the value with every NUL removed and nothing else changed. -/
def Sound (v : JsonTexts.Value) (t : Text) : Prop := read t = some (mapStrings dropNul v)

/-- `u0000`. -/
def nulDigits : Str := [0x75, 0x30, 0x30, 0x30, 0x30]

/-- A backslash with `u0000` behind it, as characters of the string. -/
def SpellsNul (s : Str) : Prop := 0x5c :: nulDigits <:+: s

/-- How often a string spells the escape. -/
def spellings : Str → ℕ
  | [] => 0
  | x :: s => (if x = 0x5c ∧ nulDigits <+: s then 1 else 0) + spellings s

theorem spellings_eq_zero_iff {s : Str} : spellings s = 0 ↔ ¬ SpellsNul s := by
  induction s with
  | nil => simp [spellings, SpellsNul]
  | cons x s ih =>
    rw [SpellsNul, List.infix_cons_iff, List.cons_prefix_cons, spellings]
    rw [SpellsNul] at ih
    split
    next h => simp [h]
    next h =>
      rw [Nat.zero_add, ih, not_or]
      exact ⟨fun hs => ⟨fun hx => h ⟨hx.1.symm, hx.2⟩, hs⟩, And.right⟩

/-! ### The removal, piece by piece -/

theorem dropEscapes_nul (t : Text) : dropEscapes (unitEscape 0 ++ t) = dropEscapes t := rfl

theorem dropEscapes_cons {c : Char} {t : Text} (h : ∀ u, c :: t ≠ unitEscape 0 ++ u) :
    dropEscapes (c :: t) = c :: dropEscapes t := by
  rw [dropEscapes.eq_def]
  split
  next u heq => exact absurd heq (h u)
  next heq =>
    cases heq
    rfl
  next heq => cases heq

/-- The removal goes through the text as it is. -/
def Inert (p : Text) : Prop := ∀ t, dropEscapes (p ++ t) = p ++ dropEscapes t

/-- A backslash before the escape of a NUL is written as two; the removal takes the second of them. -/
theorem dropEscapes_spelled (t : Text) : dropEscapes ('\\' :: (unitEscape 0 ++ t)) = '\\' :: dropEscapes t := by
  have hne : ∀ u, '\\' :: (unitEscape 0 ++ t) ≠ unitEscape 0 ++ u := by
    intro u heq
    have hsecond : '\\' = 'u' := (List.cons.inj (List.cons.inj heq).2).1
    cases hsecond
  rw [dropEscapes_cons hne, dropEscapes_nul]

theorem dropEscapes_backslash {t : Text} (h : ∀ u, '\\' :: t ≠ unitEscape 0 ++ u) :
    dropEscapes ('\\' :: '\\' :: t) = '\\' :: '\\' :: dropEscapes t := by
  have hne : ∀ u, '\\' :: '\\' :: t ≠ unitEscape 0 ++ u := by
    intro u heq
    have hsecond : '\\' = 'u' := (List.cons.inj (List.cons.inj heq).2).1
    cases hsecond
  rw [dropEscapes_cons hne, dropEscapes_cons h]

theorem inert_append {p q : Text} (hp : Inert p) (hq : Inert q) : Inert (p ++ q) := by
  intro t
  rw [List.append_assoc, hp, hq, List.append_assoc]

theorem inert_char {c : Char} (h : c ≠ '\\') : Inert [c] := by
  intro t
  refine dropEscapes_cons fun u heq => h ?_
  exact (List.cons.inj heq).1

theorem inert_of_forall {p : Text} (h : ∀ c ∈ p, c ≠ '\\') : Inert p := by
  induction p with
  | nil => exact fun t => rfl
  | cons c p ih =>
    obtain ⟨hc, hp⟩ := List.forall_mem_cons.mp h
    exact inert_append (inert_char hc) (ih hp)

theorem inert_short {e : Char} (hu : e ≠ 'u') (hb : e ≠ '\\') : Inert ['\\', e] := by
  intro t
  have hfirst : dropEscapes ('\\' :: ([e] ++ t)) = '\\' :: dropEscapes ([e] ++ t) := by
    refine dropEscapes_cons fun u heq => hu ?_
    exact (List.cons.inj (List.cons.inj heq).2).1
  change dropEscapes ('\\' :: ([e] ++ t)) = _
  rw [hfirst, inert_char hb]
  rfl

theorem unitEscape_ne {x : ℕ} (h : x < 0x10000) (h0 : x ≠ 0) (t u : Text) : unitEscape x ++ t ≠ unitEscape 0 ++ u := by
  intro heq
  have hlength : (unitEscape x).length = (unitEscape 0).length := rfl
  have hsame : unitEscape x = unitEscape 0 := (List.append_inj heq hlength).1
  have hread := readChars_unitEscape h ['"']
  rw [hsame, readChars_unitEscape (by decide), readChars_quote] at hread
  have hval : (Fin.ofNat 0x110000 0 : CodePoint) = Fin.ofNat 0x110000 x := by simpa [consUnit] using hread
  have hnat := congrArg Fin.val hval
  rw [Fin.val_ofNat, Fin.val_ofNat] at hnat
  omega

theorem digitChar_ne_backslash (y : ℕ) : Nat.digitChar (y % 16) ≠ '\\' := by
  have hall : ∀ d : Fin 16, Nat.digitChar d.val ≠ '\\' := by decide
  exact hall ⟨y % 16, Nat.mod_lt y (by decide)⟩

theorem inert_unitEscape {x : ℕ} (h : x < 0x10000) (h0 : x ≠ 0) : Inert (unitEscape x) := by
  intro t
  have hrest : Inert ((unitEscape x).drop 1) := by
    refine inert_of_forall ?_
    simp only [unitEscape, List.drop_succ_cons, List.drop_zero, List.forall_mem_cons]
    exact ⟨by decide, digitChar_ne_backslash _, digitChar_ne_backslash _, digitChar_ne_backslash _,
      digitChar_ne_backslash _, fun c hc => by cases hc⟩
  have hsplit : unitEscape x = '\\' :: (unitEscape x).drop 1 := rfl
  have hfirst : dropEscapes ('\\' :: ((unitEscape x).drop 1 ++ t)) = '\\' :: dropEscapes ((unitEscape x).drop 1 ++ t) :=
    dropEscapes_cons fun u => unitEscape_ne h h0 t u
  calc
    dropEscapes (unitEscape x ++ t) = dropEscapes ('\\' :: ((unitEscape x).drop 1 ++ t)) := rfl
    _ = unitEscape x ++ dropEscapes t := by rw [hfirst, hrest t]; rfl

/-- Every character but NUL and the backslash is left alone. -/
theorem inert_escape {x : CodePoint} (h0 : x ≠ 0) (hb : x ≠ 0x5c) : Inert (escape x) := by
  have hv0 : x.val ≠ 0 := fun h => h0 (Fin.ext h)
  have hvb : x.val ≠ 0x5c := fun h => hb (Fin.ext h)
  rcases escape_cases x with ⟨e, he, hu, -, hback, -⟩ | ⟨c, hc, -, -, hback, -⟩ | ⟨he, hlt, -⟩ | ⟨he, hbeyond⟩
  · rw [he]
    exact inert_short hu fun h => hvb (hback.mp h)
  · rw [hc]
    exact inert_char hback
  · rw [he]
    exact inert_unitEscape hlt hv0
  · obtain ⟨hh1, hh2⟩ := high_lt hbeyond
    obtain ⟨hl1, hl2⟩ := low_lt x.val
    rw [he]
    exact inert_append (inert_unitEscape (by omega) (by omega)) (inert_unitEscape (by omega) (by omega))

/-- The removal makes a text of `p`, and that text is `q` unless it is shorter: it lacks `k` letters u. -/
def Drops (p q : Text) (k : ℕ) : Prop :=
  ∃ p', (∀ t, dropEscapes (p ++ t) = p' ++ dropEscapes t) ∧ (k = 0 → p' = q) ∧ cost p' + k = cost q

theorem Inert.drops {p : Text} (h : Inert p) : Drops p p 0 := ⟨p, h, fun _ => rfl, rfl⟩

theorem Drops.append {p q p' q' : Text} {k k' : ℕ} (h : Drops p q k) (h' : Drops p' q' k') :
    Drops (p ++ p') (q ++ q') (k + k') := by
  obtain ⟨u, hu, hsame, hcost⟩ := h
  obtain ⟨u', hu', hsame', hcost'⟩ := h'
  refine ⟨u ++ u', fun t => ?_, fun hk => ?_, ?_⟩
  · rw [List.append_assoc, hu, hu', List.append_assoc]
  · rw [hsame (by omega), hsame' (by omega)]
  · rw [cost_append, cost_append]
    omega

theorem drops_nul : Drops (escape 0) [] 0 := ⟨[], dropEscapes_nul, fun _ => rfl, rfl⟩

/-- The characters of `u0000` are written as they are. -/
theorem escape_nulDigits {x : CodePoint} (h : x ∈ nulDigits) : ∃ c : Char, escape x = [c] ∧ c.toNat = x.val ∧
    c ≠ '\\' ∧ c ≠ '"' := by
  simp only [nulDigits, List.mem_cons, List.not_mem_nil, or_false] at h
  rcases h with rfl | rfl | rfl | rfl | rfl
  · exact ⟨'u', rfl, rfl, by decide, by decide⟩
  all_goals exact ⟨'0', rfl, rfl, by decide, by decide⟩

/-- The written string begins with `u0000` only if the string does. -/
theorem nulDigits_of_escapes {s : Str} {u : Text}
    (h : escapes s ++ '"' :: u = escapes nulDigits ++ (escapes s ++ '"' :: u).drop 5) : nulDigits <+: s := by
  have hstep : ∀ (xs : Str) (s : Str) (v : Text), (∀ x ∈ xs, x ∈ nulDigits) → escapes s ++ '"' :: u = escapes xs ++ v →
      xs <+: s := by
    intro xs
    induction xs with
    | nil => exact fun s v _ _ => List.nil_prefix
    | cons x xs ih =>
      intro s v hxs heq
      obtain ⟨hx, hxs'⟩ := List.forall_mem_cons.mp hxs
      obtain ⟨d, hxe, hxval, hxb, hxq⟩ := escape_nulDigits hx
      rw [escapes_cons, hxe, List.singleton_append, List.cons_append] at heq
      cases s with
      | nil =>
        have hhead : '"' = d := (List.cons.inj heq).1
        exact absurd hhead.symm hxq
      | cons y s =>
        rw [escapes_cons] at heq
        have hsingle : ∃ c, escape y = [c] ∧ c.toNat = y.val := by
          have hback : ∀ w : Text, escape y ≠ '\\' :: w := by
            intro w hw
            rw [hw] at heq
            exact hxb (List.cons.inj heq).1.symm
          rcases escape_cases y with ⟨e, he, -⟩ | ⟨c, hc, hval, -⟩ | ⟨he, -⟩ | ⟨he, -⟩
          · exact absurd he (hback _)
          · exact ⟨c, hc, hval⟩
          · exact absurd he (hback _)
          · exact absurd he (hback _)
        obtain ⟨c, hc, hval⟩ := hsingle
        rw [hc, List.singleton_append, List.cons_append] at heq
        obtain ⟨hcx, hrest⟩ := List.cons.inj heq
        have hyx : x = y := by
          apply Fin.ext
          rw [← hval, hcx, hxval]
        rw [hyx]
        exact List.cons_prefix_cons.mpr ⟨rfl, ih s v hxs' hrest⟩
  exact hstep nulDigits s _ (fun x hx => hx) h

/-- The removal from a string, up to its closing quote. -/
theorem drops_escapes (s : Str) : Drops (escapes s ++ ['"']) (escapes (dropNul s) ++ ['"']) (spellings s) := by
  induction hn : s.length using Nat.strong_induction_on generalizing s with
  | _ n ih =>
    cases s with
    | nil => exact (inert_char (by decide)).drops
    | cons x s =>
      have hs : Drops (escapes s ++ ['"']) (escapes (dropNul s) ++ ['"']) (spellings s) :=
        ih s.length (by simp only [List.length_cons] at hn; omega) s rfl
      by_cases h0 : x = 0
      · subst h0
        have hdrop : dropNul (0 :: s) = dropNul s := rfl
        have hcount : spellings (0 :: s) = 0 + spellings s := rfl
        rw [escapes_cons, List.append_assoc, hdrop, hcount]
        exact drops_nul.append hs
      · have hkeep : dropNul (x :: s) = x :: dropNul s := List.filter_cons_of_pos (by simpa using h0)
        by_cases hb : x = 0x5c
        · subst hb
          by_cases hspells : nulDigits <+: s
          · obtain ⟨s', rfl⟩ := hspells
            have hs' : Drops (escapes s' ++ ['"']) (escapes (dropNul s') ++ ['"']) (spellings s') :=
              ih s'.length (by simp only [List.length_cons, List.length_append] at hn; omega) s' rfl
            obtain ⟨p, hp, -, hcost⟩ := hs'
            have hcount : spellings (0x5c :: (nulDigits ++ s')) = 1 + spellings s' := by
              have htail : spellings (nulDigits ++ s') = spellings s' := by
                simp [nulDigits, spellings]
              rw [spellings, if_pos ⟨rfl, List.prefix_append _ _⟩, htail]
            have htext : escapes (0x5c :: (nulDigits ++ s')) = '\\' :: (unitEscape 0 ++ escapes s') := rfl
            have hkept : escapes (dropNul (0x5c :: (nulDigits ++ s'))) =
                '\\' :: (unitEscape 0 ++ escapes (dropNul s')) := rfl
            refine ⟨'\\' :: p, fun t => ?_, fun hk => ?_, ?_⟩
            · have hrest := hp t
              rw [htext, List.cons_append, List.append_assoc, List.cons_append, List.append_assoc,
                dropEscapes_spelled, hrest]
              rfl
            · rw [hcount] at hk
              omega
            · rw [hcount, hkept, List.cons_append, List.append_assoc, cost_cons_of_ne (by decide),
                cost_cons_of_ne (by decide), cost_append, cost_unitEscape, ← hcost]
              omega
          · obtain ⟨p, hp, hsame, hcost⟩ := hs
            have hcount : spellings (0x5c :: s) = spellings s := by
              rw [spellings, if_neg (fun h => hspells h.2), Nat.zero_add]
            have hwritten : escape 0x5c = ['\\', '\\'] := rfl
            rw [hkeep, escapes_cons, escapes_cons, hcount, hwritten]
            refine ⟨'\\' :: '\\' :: p, fun t => ?_, fun hk => ?_, ?_⟩
            · have hsecond : ∀ u, '\\' :: (escapes s ++ '"' :: t) ≠ unitEscape 0 ++ u := by
                intro u heq
                refine hspells (nulDigits_of_escapes (u := t) ?_)
                have htail : escapes s ++ '"' :: t = escapes nulDigits ++ u := (List.cons.inj heq).2
                rw [htail]
                rfl
              have hrest := hp t
              rw [List.append_assoc, List.singleton_append] at hrest
              have htext : ['\\', '\\'] ++ escapes s ++ ['"'] ++ t = '\\' :: '\\' :: (escapes s ++ '"' :: t) := by simp
              rw [htext, dropEscapes_backslash hsecond, hrest]
              rfl
            · rw [hsame hk]
              rfl
            · have htext : ['\\', '\\'] ++ escapes (dropNul s) ++ ['"'] =
                  '\\' :: '\\' :: (escapes (dropNul s) ++ ['"']) := by simp
              rw [htext, cost_cons_of_ne (by decide), cost_cons_of_ne (by decide), cost_cons_of_ne (by decide),
                cost_cons_of_ne (by decide)]
              exact hcost
        · have hcount : spellings (x :: s) = 0 + spellings s := by
            rw [spellings, if_neg fun h => hb h.1]
          rw [hkeep, escapes_cons, escapes_cons, List.append_assoc, List.append_assoc, hcount]
          exact (inert_escape h0 hb).drops.append hs

theorem drops_dumpStr (s : Str) : Drops (dumpStr s) (dumpStr (dropNul s)) (spellings s) := by
  have h := (inert_char (by decide : '"' ≠ '\\')).drops.append (drops_escapes s)
  rw [Nat.zero_add] at h
  exact h

/-- Texts of a sequence that the removal goes through one by one. -/
theorem drops_joined {γ : Type} {p q : γ → Text} {k : γ → ℕ} (xs : List γ) (h : ∀ x ∈ xs, Drops (p x) (q x) (k x)) :
    Drops (joined (xs.map p)) (joined (xs.map q)) (xs.map k).sum := by
  induction xs with
  | nil => exact ⟨[], fun t => rfl, fun _ => rfl, rfl⟩
  | cons x xs ih =>
    obtain ⟨hx, hxs⟩ := List.forall_mem_cons.mp h
    cases xs with
    | nil => exact hx
    | cons y ys =>
      have hcomma : Inert [',', ' '] :=
        inert_of_forall (List.forall_mem_cons.mpr ⟨by decide, List.forall_mem_singleton.mpr (by decide)⟩)
      have hall := hx.append (hcomma.drops.append (ih hxs))
      rw [Nat.zero_add] at hall
      exact hall

theorem sum_strings_items (items : List JsonTexts.Value) : ((stringsOfItems items).map spellings).sum =
    (items.map fun v => ((strings v).map spellings).sum).sum := by
  induction items with
  | nil => rfl
  | cons v vs ih => rw [stringsOfItems, List.map_append, List.sum_append, ih, List.map_cons, List.sum_cons]

theorem sum_strings_fields (fields : List (Str × JsonTexts.Value)) : ((stringsOfFields fields).map spellings).sum =
    (fields.map fun kv => spellings kv.1 + ((strings kv.2).map spellings).sum).sum := by
  induction fields with
  | nil => rfl
  | cons kv fs ih =>
    rw [stringsOfFields, List.map_cons, List.sum_cons, List.map_append, List.sum_append, ih, List.map_cons, List.sum_cons,
      Nat.add_assoc]

theorem drops_dump (v : JsonTexts.Value) :
    Drops (dump v) (dump (mapStrings dropNul v)) ((strings v).map spellings).sum := by
  have hword : ∀ t : Text, (t.all (· != '\\')) = true → Drops t t 0 := by
    intro t ht
    exact (inert_of_forall fun c hc => by simpa using List.all_eq_true.mp ht c hc).drops
  induction v using JsonTexts.Value.byMembers with
  | null => exact hword _ rfl
  | bool b => cases b <;> exact hword _ rfl
  | num n =>
    refine (inert_of_forall fun c hc => ?_).drops
    rintro rfl
    cases numberChar_of_isNumber n.wellFormed _ hc
  | nonFinite x => cases x <;> exact hword _ rfl
  | str s => exact drops_dumpStr s
  | arr items ih =>
    have hall := (hword ['['] rfl).append ((drops_joined items ih).append (hword [']'] rfl))
    rw [Nat.zero_add, Nat.add_zero, ← sum_strings_items] at hall
    rw [mapStrings, dump_arr, dump_arr, mapItems_eq, List.map_map]
    exact hall
  | obj fields ih =>
    have hfield : ∀ kv ∈ fields, Drops (dumpField kv.1 (dump kv.2))
        (dumpField (dropNul kv.1) (dump (mapStrings dropNul kv.2)))
        (spellings kv.1 + ((strings kv.2).map spellings).sum) := by
      intro kv hkv
      have hcolon := (hword [':', ' '] rfl).append (ih kv hkv)
      rw [Nat.zero_add] at hcolon
      exact (drops_dumpStr kv.1).append hcolon
    have hall := (hword ['{'] rfl).append ((drops_joined fields hfield).append (hword ['}'] rfl))
    rw [Nat.zero_add, Nat.add_zero, ← sum_strings_fields] at hall
    rw [mapStrings, dump_obj, dump_obj, mapFields_eq, List.map_map]
    exact hall

/-! ### When the stored text is sound -/

theorem dropEscapes_sublist (t : Text) : (dropEscapes t).Sublist t := by
  induction t using dropEscapes.induct with
  | case1 t ih => exact ih.trans (List.sublist_append_right (unitEscape 0) t)
  | case2 c t h ih =>
    have hne : ∀ u, c :: t ≠ unitEscape 0 ++ u := by
      intro u heq
      obtain ⟨hc, ht⟩ := List.cons.inj heq
      exact h u hc ht
    rw [dropEscapes_cons hne]
    exact ih.cons_cons c
  | case3 => exact List.Sublist.slnil

theorem finite_mapStrings (f : Str → Str) (v : JsonTexts.Value) : finite (mapStrings f v) = finite v := by
  induction v using JsonTexts.Value.byMembers with
  | arr items ih =>
    rw [Bool.eq_iff_iff, mapStrings, finite, finite, mapItems_eq, finiteItems_iff, finiteItems_iff, List.forall_mem_map]
    exact forall₂_congr fun v hv => by rw [ih v hv]
  | obj fields ih =>
    rw [Bool.eq_iff_iff, mapStrings, finite, finite, mapFields_eq, finiteFields_iff, finiteFields_iff,
      List.forall_mem_map]
    exact forall₂_congr fun kv hkv => by rw [ih kv hkv]
  | _ => rfl

/-- Without a spelled escape the removal writes the text of the value without NULs; with one, what is
left is too short for that value. -/
theorem sound_iff (v : JsonTexts.Value) : Sound v (dropEscapes (dump v)) ↔
    finite v = true ∧ ∀ s ∈ strings v, ¬ SpellsNul s ∧ Unpaired (dropNul s) := by
  obtain ⟨p, hp, hsame, hcost⟩ := drops_dump v
  have htext : dropEscapes (dump v) = p := by
    have h := hp []
    rw [List.append_nil] at h
    rw [h]
    exact List.append_nil p
  have hspellings : ((strings v).map spellings).sum = 0 ↔ ∀ s ∈ strings v, ¬ SpellsNul s := by
    rw [List.sum_eq_zero_iff_forall_eq_nat, List.forall_mem_map]
    exact forall₂_congr fun s _ => spellings_eq_zero_iff
  have hmerge : mapStrings merge (mapStrings dropNul v) = mapStrings dropNul v ↔
      ∀ s ∈ strings v, Unpaired (dropNul s) := by
    rw [mapStrings_eq_self_iff, strings_mapStrings, List.forall_mem_map]
    exact forall₂_congr fun s _ => merge_eq_self_iff
  have hdecode : read (dump (mapStrings dropNul v)) =
      if finite v then some (mapStrings merge (mapStrings dropNul v)) else none := by
    rw [read_dump, decode, finite_mapStrings]
  rw [Sound, htext]
  constructor
  · intro hread
    have hprintable : Printable p := htext ▸ (printable_dump v).sublist (dropEscapes_sublist _)
    have hle := cost_read hread hprintable
    have hzero : ((strings v).map spellings).sum = 0 := by omega
    rw [hsame hzero, hdecode] at hread
    split at hread
    next hfinite =>
      have hpaired := hmerge.mp (Option.some.inj hread)
      exact ⟨hfinite, fun s hs => ⟨hspellings.mp hzero s hs, hpaired s hs⟩⟩
    next => cases hread
  · rintro ⟨hfinite, h⟩
    rw [hsame (hspellings.mpr fun s hs => (h s hs).1), hdecode, if_pos hfinite, hmerge.mpr fun s hs => (h s hs).2]

/-- The stored text is a document of the results without their NULs exactly when no string or key spells
the escape, none has a high surrogate that meets a low one, and every number is finite. -/
theorem stored_results_sound_iff (results : List JsonTexts.Value) : Sound (.arr results) (storedText results) ↔
    finite (.arr results) = true ∧ ∀ s ∈ strings (.arr results), ¬ SpellsNul s ∧ Unpaired (dropNul s) :=
  sound_iff (.arr results)

def codePoints (s : String) : Str := s.toList.map fun c => Fin.ofNat _ c.toNat

/-- A result whose detail is a backslash and `u0000`, as a command prints a JSON text. -/
def spelledResult : JsonTexts.Value := .obj [(codePoints "detail", .str (0x5c :: nulDigits))]

/-- What is stored for it is no document. -/
theorem spelled_result_corrupted : storedText [spelledResult] = "[\x7b\"detail\": \"\\\"\x7d]".toList ∧
    read (storedText [spelledResult]) = none ∧ ¬ Sound (.arr [spelledResult]) (storedText [spelledResult]) := by
  have hnone : read (storedText [spelledResult]) = none := by
    have h : (read (storedText [spelledResult])).isNone = true := by decide +kernel
    exact Option.isNone_iff_eq_none.mp h
  refine ⟨by decide +kernel, hnone, ?_⟩
  rw [Sound, hnone]
  intro h
  cases h

end ReleaseValidation.TestRunner.ResultTexts
