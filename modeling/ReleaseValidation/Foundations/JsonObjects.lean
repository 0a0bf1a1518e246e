import ReleaseValidation.Foundations.JsonReading

/-! # Objects of plain texts

An object that is written without blanks and whose texts need no escapes reads as these texts.
-/
namespace ReleaseValidation.JsonTexts

/-- A character that stands for itself in a string. -/
def Unescaped (c : Char) : Prop := c ≠ '"' ∧ c ≠ '\\' ∧ 0x20 ≤ c.toNat

instance (c : Char) : Decidable (Unescaped c) := inferInstanceAs (Decidable (_ ∧ _))

def codePoints (t : Text) : Str := t.map fun c => Fin.ofNat _ c.toNat

def compactMember (field : Text × Text) : Text := '"' :: field.1 ++ '"' :: ':' :: '"' :: field.2 ++ ['"']

def compactMembers : List (Text × Text) → Text
  | [] => []
  | [f] => compactMember f
  | f :: g :: fs => compactMember f ++ ',' :: compactMembers (g :: fs)

def compactObject (fields : List (Text × Text)) : Text := '{' :: compactMembers fields ++ ['}']

def textFields (fields : List (Text × Text)) : List (Str × Value) :=
  fields.map fun f => (codePoints f.1, .str (codePoints f.2))

theorem not_isHigh_char (c : Char) : isHigh (Fin.ofNat 0x110000 c.toNat) = false := by
  have hvalid := c.valid
  rw [isHigh, val_ofNat_char, Bool.and_eq_false_iff, decide_eq_false_iff_not, decide_eq_false_iff_not]
  rcases hvalid with h | h
  · exact .inl (Nat.not_le.mpr h)
  · exact .inr (Nat.not_lt.mpr ((by decide : 0xdc00 ≤ 0xdfff).trans h.1.le))

theorem readChars_unescaped {t : Text} (ht : ∀ c ∈ t, Unescaped c) (r : Text) :
    readChars (t ++ '"' :: r) = some (codePoints t, r) := by
  induction t with
  | nil => exact readChars_quote r
  | cons c t ih =>
    obtain ⟨⟨hq, hb, hc⟩, ht⟩ := List.forall_mem_cons.mp ht
    rw [List.cons_append, readChars_char hq hb hc, ih ht]
    exact congrArg (fun s => some (s, r)) (consUnit_of_not_high (not_isHigh_char c) _)

theorem readField_compact {field : Text × Text} (hkey : ∀ c ∈ field.1, Unescaped c) (htext : ∀ c ∈ field.2, Unescaped c)
    (n : ℕ) (r : Text) : readField (readValue (n + 1)) (compactMember field ++ r) =
      some ((codePoints field.1, .str (codePoints field.2)), r) := by
  have hvalue : readValue (n + 1) ('"' :: (field.2 ++ '"' :: r)) = some (.str (codePoints field.2), r) := by
    rw [readValue, if_pos rfl, readChars_unescaped htext]
    rfl
  have hmember : compactMember field ++ r = '"' :: (field.1 ++ '"' :: ':' :: '"' :: (field.2 ++ '"' :: r)) := by
    simp only [compactMember, List.cons_append, List.append_assoc, List.nil_append]
  rw [hmember, readField, if_pos rfl, readChars_unescaped hkey]
  change ((readValue (n + 1) ('"' :: (field.2 ++ '"' :: r))).map _) = _
  rw [hvalue]
  rfl

/-- What is true of the marks and of the texts is true of all characters of the object. -/
theorem forall_mem_compactObject {P : Char → Prop} (hmarks : ∀ c ∈ ['{', '}', '"', ':', ','], P c)
    {fields : List (Text × Text)} (hkeys : ∀ f ∈ fields, ∀ c ∈ f.1, P c) (htexts : ∀ f ∈ fields, ∀ c ∈ f.2, P c) :
    ∀ c ∈ compactObject fields, P c := by
  simp only [List.forall_mem_cons, List.not_mem_nil, false_imp_iff, implies_true, and_true] at hmarks
  obtain ⟨hopen, hclose, hquote, hcolon, hcomma⟩ := hmarks
  have hmember : ∀ f ∈ fields, ∀ c ∈ compactMember f, P c := by
    intro f hf
    simp only [compactMember, List.cons_append, List.append_assoc, List.forall_mem_cons, List.forall_mem_append]
    exact ⟨hquote, hkeys f hf, hquote, hcolon, hquote, htexts f hf, hquote, by simp⟩
  have hmembers : ∀ c ∈ compactMembers fields, P c := by
    clear hkeys htexts
    induction fields using compactMembers.induct with
    | case1 => simp [compactMembers]
    | case2 f => exact hmember f List.mem_cons_self
    | case3 f g fs ih =>
      rw [compactMembers, List.forall_mem_append, List.forall_mem_cons]
      exact ⟨hmember f List.mem_cons_self, hcomma, ih fun f' hf => hmember f' (List.mem_cons_of_mem f hf)⟩
  rw [compactObject, List.cons_append, List.forall_mem_cons, List.forall_mem_append, List.forall_mem_singleton]
  exact ⟨hopen, hmembers, hclose⟩

theorem skipSpace_compact (field : Text × Text) (r : Text) :
    skipSpace (compactMember field ++ r) = compactMember field ++ r := rfl

theorem readSequence_compact {fields : List (Text × Text)} (hne : fields ≠ [])
    (hkeys : ∀ f ∈ fields, ∀ c ∈ f.1, Unescaped c) (htexts : ∀ f ∈ fields, ∀ c ∈ f.2, Unescaped c) (n : ℕ) {m : ℕ}
    (hm : fields.length ≤ m) (r : Text) :
    readSequence (readField (readValue (n + 1))) '}' m (compactMembers fields ++ '}' :: r) = some (textFields fields, r) := by
  induction fields using compactMembers.induct generalizing m with
  | case1 => exact absurd rfl hne
  | case2 f =>
    obtain ⟨m, rfl⟩ : ∃ k, m = k + 1 := ⟨m - 1, by rw [List.length_singleton] at hm; omega⟩
    rw [compactMembers, readSequence, skipSpace_compact,
      readField_compact (hkeys f List.mem_cons_self) (htexts f List.mem_cons_self)]
    rfl
  | case3 f g fs ih =>
    obtain ⟨m, rfl⟩ : ∃ k, m = k + 1 := ⟨m - 1, by simp only [List.length_cons] at hm; omega⟩
    have hrest := ih (List.cons_ne_nil g fs) (fun f' hf => hkeys f' (List.mem_cons_of_mem f hf))
      (fun f' hf => htexts f' (List.mem_cons_of_mem f hf)) (Nat.le_of_succ_le_succ hm)
    rw [compactMembers, List.append_assoc, readSequence, skipSpace_compact,
      readField_compact (hkeys f List.mem_cons_self) (htexts f List.mem_cons_self)]
    change ((readSequence (readField (readValue (n + 1))) '}' m (compactMembers (g :: fs) ++ '}' :: r)).map _) = _
    rw [hrest]
    rfl

theorem length_le_compactMembers (fields : List (Text × Text)) : fields.length ≤ (compactMembers fields).length := by
  induction fields using compactMembers.induct with
  | case1 => exact Nat.le_refl 0
  | case2 f => simp [compactMembers, compactMember]
  | case3 f g fs ih =>
    have hlength : (compactMember f ++ ',' :: compactMembers (g :: fs)).length =
        (compactMember f).length + ((compactMembers (g :: fs)).length + 1) := List.length_append
    rw [compactMembers, hlength, List.length_cons]
    omega

/-- An object of texts without escapes is read as its texts. -/
theorem read_compactObject {fields : List (Text × Text)} (hne : fields ≠ [])
    (hkeys : ∀ f ∈ fields, ∀ c ∈ f.1, Unescaped c) (htexts : ∀ f ∈ fields, ∀ c ∈ f.2, Unescaped c) :
    read (compactObject fields) = some (.obj (textFields fields)) := by
  have hhead : ∃ u, compactMembers fields ++ ['}'] = '"' :: u := by
    cases fields with
    | nil => exact absurd rfl hne
    | cons f fs => cases fs <;> exact ⟨_, rfl⟩
  have hmembers : ∀ n, readMembers (readField (readValue (n + 1))) '}' (compactMembers fields ++ ['}']) =
      some (textFields fields, []) := fun n => by
    obtain ⟨u, hu⟩ := hhead
    have hsequence := readSequence_compact hne hkeys htexts n (m := ('"' :: u).length) (by
      rw [← hu, List.length_append]
      exact (length_le_compactMembers fields).trans (Nat.le_add_right _ _)) []
    rw [hu] at hsequence ⊢
    exact hsequence
  have hlength : (compactObject fields).length = (compactMembers fields ++ ['}']).length + 1 := rfl
  rw [read, hlength]
  change ((readMembers (readField (readValue ((compactMembers fields ++ ['}']).length + 1))) '}'
    (compactMembers fields ++ ['}'])).map _).bind _ = _
  rw [hmembers]
  rfl

end ReleaseValidation.JsonTexts
