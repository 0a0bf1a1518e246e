import ReleaseValidation.Foundations.JsonReading

/-! # Documents that are cut off

A reader that has stopped before the end of a text reads the same from a longer one. A value
in brackets or quotes shows its end, so no proper beginning of its text is a document; only
a number can be cut to another number.
-/
namespace ReleaseValidation.JsonTexts

theorem skipSpace_append {t : Text} (h : skipSpace t ≠ []) (u : Text) : skipSpace (t ++ u) = skipSpace t ++ u := by
  induction t with
  | nil => exact absurd rfl h
  | cons c t ih =>
    unfold skipSpace at h ih ⊢
    cases hc : isSpace c with
    | true =>
      rw [List.dropWhile_cons_of_pos hc] at h
      rw [List.cons_append, List.dropWhile_cons_of_pos hc, List.dropWhile_cons_of_pos hc, ih h]
    | false =>
      have hneg : ¬ isSpace c = true := by simp [hc]
      rw [List.cons_append, List.dropWhile_cons_of_neg hneg, List.dropWhile_cons_of_neg hneg, List.cons_append]

theorem skipSpace_append_cons {t r : Text} {c : Char} (h : skipSpace t = c :: r) (u : Text) :
    skipSpace (t ++ u) = c :: (r ++ u) := by
  rw [skipSpace_append (by rw [h]; exact List.cons_ne_nil c r), h, List.cons_append]

/-- A string ends with its quote, whatever follows. -/
theorem readChars_append {t r : Text} {s : Str} (h : readChars t = some (s, r)) (u : Text) :
    readChars (t ++ u) = some (s, r ++ u) := by
  refine readChars_induction (P := fun t s => readChars (t ++ u) = some (s, r ++ u)) ?_ ?_ h
  · exact readChars_quote (r ++ u)
  · intro p x t s hp ih
    rw [List.append_assoc, readChars_unit hp, ih]
    rfl

section Sequences
variable {α : Type} {read read' : Text → Option (α × Text)} {close : Char}

/-- What `read` has read short of the end of a text, `read'` reads from any longer one. -/
structure Grows (read read' : Text → Option (α × Text)) : Prop where
  empty : read [] = none
  longer : ∀ t x r, read t = some (x, r) → r ≠ [] → ∀ u, read' (t ++ u) = some (x, r ++ u)

/-- A member that stands at the head, after space, and before more text. -/
theorem Grows.member (h : Grows read read') {t r : Text} {x : α} (ht : read (skipSpace t) = some (x, r)) (hr : r ≠ [])
    (u : Text) : read' (skipSpace (t ++ u)) = some (x, r ++ u) := by
  have hne : skipSpace t ≠ [] := by
    intro hnil
    rw [hnil, h.empty] at ht
    cases ht
  rw [skipSpace_append hne]
  exact h.longer _ x r ht hr u

theorem ne_nil_of_skipSpace {t r : Text} {c : Char} (h : skipSpace t = c :: r) : t ≠ [] := by
  rintro rfl
  cases h

theorem readSequence_append (h : Grows read read') {m m' : ℕ} {t r : Text} {xs : List α}
    (ht : readSequence read close m t = some (xs, r)) (hm : m ≤ m') (u : Text) :
    readSequence read' close m' (t ++ u) = some (xs, r ++ u) := by
  induction m generalizing m' t xs with
  | zero => cases ht
  | succ m ih =>
    obtain ⟨m', rfl⟩ : ∃ k, m' = k + 1 := ⟨m' - 1, by omega⟩
    rw [readSequence] at ht
    obtain ⟨⟨x, r₁⟩, hread, ht⟩ := Option.bind_eq_some_iff.mp ht
    cases hr : skipSpace r₁ with
    | nil =>
      simp only [hr] at ht
      cases ht
    | cons c r₂ =>
      simp only [hr] at ht
      rw [readSequence, h.member hread (ne_nil_of_skipSpace hr), Option.bind_some]
      simp only [skipSpace_append_cons hr]
      split
      next hc =>
        rw [if_pos hc] at ht
        obtain ⟨⟨ys, r₃⟩, hrest, heq⟩ := Option.map_eq_some_iff.mp ht
        cases heq
        rw [ih hrest (by omega)]
        rfl
      next hc =>
        rw [if_neg hc] at ht
        split at ht
        next hclose =>
          cases ht
          rw [if_pos hclose]
        next => cases ht

theorem readMembers_append (h : Grows read read') {t r : Text} {xs : List α}
    (ht : readMembers read close t = some (xs, r)) (u : Text) :
    readMembers read' close (t ++ u) = some (xs, r ++ u) := by
  unfold readMembers at ht
  cases hs : skipSpace t with
  | nil =>
    simp only [hs] at ht
    cases ht
  | cons c r₁ =>
    simp only [hs] at ht
    unfold readMembers
    simp only [skipSpace_append_cons hs]
    split
    next hc =>
      rw [if_pos hc] at ht
      cases ht
      rfl
    next hc =>
      rw [if_neg hc] at ht
      exact readSequence_append h ht (by rw [List.length_append]; omega) u

theorem readField_grows (h : Grows read read') : Grows (readField read) (readField read') where
  empty := rfl
  longer t kv r ht hr u := by
    cases t with
    | nil => cases ht
    | cons c t =>
      rw [readField] at ht
      split at ht
      next hc =>
        obtain ⟨⟨k, r₁⟩, hread, ht⟩ := Option.bind_eq_some_iff.mp ht
        cases hs : skipSpace r₁ with
        | nil =>
          simp only [hs] at ht
          cases ht
        | cons d r₂ =>
          simp only [hs] at ht
          split at ht
          next hd =>
            obtain ⟨⟨v, r₃⟩, hv, heq⟩ := Option.map_eq_some_iff.mp ht
            cases heq
            rw [List.cons_append, readField, if_pos hc, readChars_append hread, Option.bind_some]
            simp only [skipSpace_append_cons hs, if_pos hd]
            rw [h.member hv hr]
            rfl
          next => cases ht
      next => cases ht

end Sequences

theorem readScalar_append {t r : Text} {v : Value} (ht : readScalar t = some (v, r)) (hr : r ≠ []) (u : Text) :
    readScalar (t ++ u) = some (v, r ++ u) := by
  obtain ⟨w, hw, heq⟩ := Option.map_eq_some_iff.mp ht
  cases heq
  have hsplit : ∀ t : Text, t.dropWhile tokenChar ≠ [] → (t ++ u).takeWhile tokenChar = t.takeWhile tokenChar ∧
      (t ++ u).dropWhile tokenChar = t.dropWhile tokenChar ++ u := by
    intro t
    induction t with
    | nil => exact fun h => absurd rfl h
    | cons c t ih =>
      intro h
      cases hc : tokenChar c with
      | true =>
        rw [List.dropWhile_cons_of_pos hc] at h
        obtain ⟨htake, hdrop⟩ := ih h
        rw [List.cons_append, List.takeWhile_cons_of_pos hc, List.takeWhile_cons_of_pos hc,
          List.dropWhile_cons_of_pos hc, List.dropWhile_cons_of_pos hc, htake, hdrop]
        exact ⟨rfl, rfl⟩
      | false =>
        have hneg : ¬ tokenChar c = true := by simp [hc]
        rw [List.cons_append, List.takeWhile_cons_of_neg hneg, List.takeWhile_cons_of_neg hneg,
          List.dropWhile_cons_of_neg hneg, List.dropWhile_cons_of_neg hneg, List.cons_append]
        exact ⟨rfl, rfl⟩
  obtain ⟨htake, hdrop⟩ := hsplit t hr
  rw [readScalar, htake, hdrop, hw]
  rfl

theorem isToken_scalar {t : Text} {v : Value} (h : scalar t = some v) : isToken v = true := by
  unfold scalar at h
  split at h
  next => cases h; rfl
  next =>
  split at h
  next => cases h; rfl
  next =>
  split at h
  next => cases h; rfl
  next =>
  split at h
  next => cases h; rfl
  next => cases h

/-- A value that shows its end, or that text follows, is read from any longer text. -/
theorem readValue_append {n n' : ℕ} {t r : Text} {v : Value} (h : readValue n t = some (v, r)) (hn : n ≤ n')
    (hend : r ≠ [] ∨ isToken v = false) (u : Text) : readValue n' (t ++ u) = some (v, r ++ u) := by
  induction n generalizing n' t r v u with
  | zero => cases h
  | succ n ih =>
    obtain ⟨n', rfl⟩ : ∃ k, n' = k + 1 := ⟨n' - 1, by omega⟩
    have hgrows : Grows (readValue n) (readValue n') :=
      ⟨by cases n <;> rfl, fun t x r ht hr u => ih ht (by omega) (Or.inl hr) u⟩
    cases t with
    | nil => cases h
    | cons c t =>
      rw [readValue] at h
      rw [List.cons_append, readValue]
      split at h
      next hc =>
        obtain ⟨⟨s, r'⟩, hread, heq⟩ := Option.map_eq_some_iff.mp h
        cases heq
        rw [if_pos hc, readChars_append hread]
        rfl
      next hc =>
      split at h
      next hb =>
        obtain ⟨⟨xs, r'⟩, hread, heq⟩ := Option.map_eq_some_iff.mp h
        cases heq
        rw [if_neg hc, if_pos hb, readMembers_append hgrows hread]
        rfl
      next hb =>
      split at h
      next hbrace =>
        obtain ⟨⟨fs, r'⟩, hread, heq⟩ := Option.map_eq_some_iff.mp h
        cases heq
        rw [if_neg hc, if_neg hb, if_pos hbrace, readMembers_append (readField_grows hgrows) hread]
        rfl
      next hbrace =>
        rw [if_neg hc, if_neg hb, if_neg hbrace]
        refine readScalar_append h (hend.resolve_right ?_) u
        obtain ⟨w, hw, heq⟩ := Option.map_eq_some_iff.mp h
        cases heq
        rw [isToken_scalar hw]
        decide

/-- A text that begins with a word or a number and is read to its end is that word or number. -/
theorem readValue_token_eq {n : ℕ} {c : Char} {t r : Text} {v : Value} (h : readValue (n + 1) (c :: t) = some (v, r))
    (hv : isToken v = true) : tokenChar c = true ∧ readScalar (c :: t) = some (v, r) := by
  have hmap : ∀ {α : Type} {o : Option (α × Text)} {f : α → Value}, (∀ a, isToken (f a) = false) →
      (o.map fun p => (f p.1, p.2)) ≠ some (v, r) := by
    intro α o f hf heq
    obtain ⟨⟨a, r'⟩, -, heq⟩ := Option.map_eq_some_iff.mp heq
    cases heq
    rw [hf a] at hv
    cases hv
  rw [readValue] at h
  split at h
  next => exact absurd h (hmap fun s => rfl)
  next =>
  split at h
  next => exact absurd h (hmap fun xs => rfl)
  next =>
  split at h
  next => exact absurd h (hmap fun fs => rfl)
  next =>
    refine ⟨?_, h⟩
    obtain ⟨w, hw, -⟩ := Option.map_eq_some_iff.mp h
    by_contra hc
    rw [List.takeWhile_cons_of_neg hc] at hw
    cases hw

theorem isToken_of_head {v : Value} {c : Char} {u : Text} (h : dump v = c :: u) (hc : tokenChar c = true) :
    isToken v = true := by
  cases v with
  | str s =>
    cases h
    cases hc
  | arr items =>
    cases h
    cases hc
  | obj fields =>
    cases h
    cases hc
  | _ => rfl

/-- No proper beginning of a word is a word or a number. -/
theorem scalar_take {v : Value} (hv : isToken v = true) (hnum : ∀ n, v ≠ .num n) {k : ℕ} (hk : k < (dump v).length) :
    (scalar ((dump v).take k)).isSome = false := by
  have hall : ∀ t ∈ ["null".toList, "true".toList, "false".toList, NonFinite.nan.name, NonFinite.infinity.name,
      NonFinite.minusInfinity.name], ∀ k : Fin t.length, (scalar (t.take k)).isSome = false := by
    decide
  have hmem : dump v ∈ ["null".toList, "true".toList, "false".toList, NonFinite.nan.name, NonFinite.infinity.name,
      NonFinite.minusInfinity.name] := by
    cases v with
    | null => simp [dump]
    | bool b => cases b <;> simp [dump]
    | num n => exact absurd rfl (hnum n)
    | nonFinite x => cases x <;> simp [dump]
    | str s => cases hv
    | arr items => cases hv
    | obj fields => cases hv
  exact hall _ hmem ⟨k, hk⟩

/-- The beginning of a number, if it is a word or a number, is a number. -/
theorem scalar_beginning {t u : Text} {v : Value} {n : Number} (h : scalar t = some v) (hn : n.literal = t ++ u) :
    ∃ ht : isNumber t = true, v = .num ⟨t, ht⟩ := by
  have hchar : ∀ c ∈ t, numberChar c = true := by
    intro c hc
    refine numberChar_of_isNumber n.wellFormed c ?_
    rw [hn]
    exact List.mem_append_left u hc
  have hword : ∀ (w : Text) (c : Char), c ∈ w → numberChar c = false → t ≠ w := by
    rintro w c hc hcn rfl
    rw [hchar c hc] at hcn
    cases hcn
  rw [scalar, if_neg (hword _ 'n' (by decide) (by decide)), if_neg (hword _ 't' (by decide) (by decide)),
    if_neg (hword _ 'f' (by decide) (by decide))] at h
  split at h
  next ht =>
    cases h
    exact ⟨ht, rfl⟩
  next => cases h

theorem read_token {t : Text} (ht : ∀ c ∈ t, tokenChar c = true) (hne : t ≠ []) : read t = scalar t := by
  have hsolid : Solid t := by
    obtain ⟨c, u, rfl⟩ := List.exists_cons_of_ne_nil hne
    refine ⟨c, u, rfl, ?_⟩
    have hc : tokenChar c = true := ht c List.mem_cons_self
    rw [← Bool.not_eq_true]
    intro hspace
    simp only [isSpace, Bool.or_eq_true, beq_iff_eq] at hspace
    rcases hspace with ((rfl | rfl) | rfl) | rfl <;> cases hc
  have hread := readValue_token ht hne ends_nil t.length
  rw [List.append_nil] at hread
  rw [read, skipSpace_solid hsolid, hread]
  cases scalar t <;> rfl

theorem read_number (n : Number) : read n.literal = some (.num n) := by
  rw [read_token (fun c hc => tokenChar_of_numberChar (numberChar_of_isNumber n.wellFormed c hc))
    (isNumber_ne_nil n.wellFormed), scalar_number]

/-- Only a number can be cut to a document, another number. -/
theorem read_cut {v w : Value} {k : ℕ} (hk : k < (dump v).length) (h : read ((dump v).take k) = some w) :
    ∃ n, v = .num n ∧ ∃ hcut : isNumber (n.literal.take k) = true, w = .num ⟨n.literal.take k, hcut⟩ := by
  have hsplit : dump v = (dump v).take k ++ (dump v).drop k := (List.take_append_drop k _).symm
  have hrest : (dump v).drop k ≠ [] := by
    intro hnil
    have := List.drop_eq_nil_iff.mp hnil
    omega
  obtain ⟨c, u, hv, -⟩ := dump_head v
  cases hp : (dump v).take k with
  | nil =>
    rw [hp] at h
    cases h
  | cons d p =>
    have hd : d = c := by
      rw [hp, hv] at hsplit
      exact (List.cons.inj hsplit).1.symm
    have hskip : skipSpace (d :: p) = d :: p := by
      obtain ⟨c', u', hv', hspace⟩ := dump_solid v
      rw [hv] at hv'
      cases hv'
      exact skipSpace_solid ⟨d, p, rfl, hd ▸ hspace⟩
    rw [hp] at h
    obtain ⟨⟨w', r⟩, hread, h⟩ := Option.bind_eq_some_iff.mp h
    rw [hskip] at hread
    have hw : w' = w := by
      simp only at h
      split at h
      next => exact Option.some.inj h
      next => cases h
    subst hw
    have hwhole := readValue_dump v ((dump v).length + 1) [] (Nat.lt_succ_self _) ends_nil
    have hfuel : (d :: p).length + 1 ≤ (dump v).length + 1 := by
      rw [← hp, List.length_take]
      omega
    by_cases hend : r ≠ [] ∨ isToken w' = false
    · have hlonger := readValue_append hread hfuel hend ((dump v).drop k)
      rw [← hp, ← hsplit] at hlonger
      rw [List.append_nil, hlonger] at hwhole
      obtain ⟨x, -, heq⟩ := Option.map_eq_some_iff.mp hwhole.symm
      have hnil : r ++ (dump v).drop k = [] := (Prod.mk.inj heq).2.symm
      exact absurd (List.append_eq_nil_iff.mp hnil).2 hrest
    · have hr : r = [] := by
        by_contra hne
        exact hend (Or.inl hne)
      have htok : isToken w' = true := by
        rw [← Bool.not_eq_false]
        exact fun hne => hend (Or.inr hne)
      subst hr
      obtain ⟨hc, hscalar⟩ := readValue_token_eq hread htok
      obtain ⟨x, hx, heq⟩ := Option.map_eq_some_iff.mp hscalar
      have hx' : x = w' := congrArg Prod.fst heq
      have hall : (d :: p).takeWhile tokenChar = d :: p := by
        have hdrop : (d :: p).dropWhile tokenChar = [] := congrArg Prod.snd heq
        have happ := List.takeWhile_append_dropWhile (p := tokenChar) (l := d :: p)
        rw [hdrop, List.append_nil] at happ
        exact happ
      rw [hall, hx'] at hx
      have hvtok : isToken v = true := isToken_of_head hv (hd ▸ hc)
      by_cases hnum : ∃ n, v = .num n
      · obtain ⟨n, rfl⟩ := hnum
        rw [← hp] at hx
        obtain ⟨hcut, hw⟩ := scalar_beginning (u := n.literal.drop k) hx (List.take_append_drop k _).symm
        exact ⟨n, rfl, hcut, hw⟩
      · have hnone := scalar_take hvtok (fun n hn => hnum ⟨n, hn⟩) hk
        rw [hp, hx] at hnone
        cases hnone

end ReleaseValidation.JsonTexts
