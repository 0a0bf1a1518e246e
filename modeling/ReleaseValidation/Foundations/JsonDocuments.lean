import Mathlib.Data.List.Chain
import Mathlib.Data.List.Forall2
import ReleaseValidation.Foundations.JsonReading

/-! # The values of documents

A document is read as a value whose numbers are finite and in whose strings no high surrogate stands
before a low one. Every such value is read back from its own text.
-/
namespace ReleaseValidation.JsonTexts

/-! ### Strings -/

theorem not_isHigh_paired {x y : CodePoint} (hx : isHigh x = true) (hy : isLow y = true) : isHigh (paired x y) = false := by
  simp only [isHigh, isLow, Bool.and_eq_true, decide_eq_true_eq] at hx hy
  have hval : (paired x y).val = 0x10000 + (x.val - 0xd800) * 0x400 + (y.val - 0xdc00) := Nat.mod_eq_of_lt (by omega)
  simp only [isHigh, hval, Bool.and_eq_false_iff, decide_eq_false_iff_not]
  omega

theorem unpaired_cons {x : CodePoint} {s : Str} :
    Unpaired (x :: s) ↔ (∀ y ∈ s.head?, (isHigh x && isLow y) = false) ∧ Unpaired s := List.isChain_cons

theorem unpaired_consUnit {x : CodePoint} {s : Str} (h : Unpaired s) : Unpaired (consUnit x s) := by
  cases s with
  | nil => exact List.IsChain.singleton x
  | cons y s =>
    rw [consUnit]
    split
    next hpair =>
      obtain ⟨hx, hy⟩ := Bool.and_eq_true_iff.mp hpair
      refine unpaired_cons.mpr ⟨fun z _ => ?_, (unpaired_cons.mp h).2⟩
      rw [not_isHigh_paired hx hy, Bool.false_and]
    next hpair => exact List.IsChain.cons_cons (Bool.not_eq_true _ ▸ hpair) h

/-! ### What every reader gives -/

section Sequences
variable {α : Type} {read : Text → Option (α × Text)} {close : Char} {P : α → Prop} {S : Str → Prop}

def Gives (read : Text → Option (α × Text)) (P : α → Prop) : Prop := ∀ t x r, read t = some (x, r) → P x

theorem gives_readChars : Gives readChars Unpaired := fun _ _ _ h =>
  readChars_induction (P := fun _ s => Unpaired s) List.IsChain.nil (fun _ _ _ _ _ => unpaired_consUnit) h

theorem gives_readSequence (h : Gives read P) (m : ℕ) : Gives (readSequence read close m) fun xs => ∀ x ∈ xs, P x := by
  induction m with
  | zero =>
    intro t xs r ht
    cases ht
  | succ m ih =>
    intro t xs r ht
    rw [readSequence] at ht
    obtain ⟨⟨x, r₁⟩, hread, ht⟩ := Option.bind_eq_some_iff.mp ht
    have hx := h _ x r₁ hread
    dsimp only at ht
    split at ht
    next => cases ht
    next c r₂ _ =>
      split at ht
      next =>
        obtain ⟨⟨ys, r₃⟩, hrest, heq⟩ := Option.map_eq_some_iff.mp ht
        cases heq
        exact List.forall_mem_cons.mpr ⟨hx, ih r₂ ys _ hrest⟩
      next =>
        split at ht
        next =>
          cases ht
          exact List.forall_mem_singleton.mpr hx
        next => cases ht

theorem gives_readMembers (h : Gives read P) : Gives (readMembers read close) fun xs => ∀ x ∈ xs, P x := by
  intro t xs r ht
  unfold readMembers at ht
  split at ht
  next => cases ht
  next =>
    split at ht
    next =>
      cases ht
      exact nofun
    next => exact gives_readSequence h t.length t xs r ht

theorem gives_readField (hS : Gives readChars S) (h : Gives read P) : Gives (readField read) fun kv => S kv.1 ∧ P kv.2 := by
  intro t kv r ht
  cases t with
  | nil => cases ht
  | cons c t =>
    rw [readField] at ht
    split at ht
    next =>
      obtain ⟨⟨k, r₁⟩, hread, ht⟩ := Option.bind_eq_some_iff.mp ht
      dsimp only at ht
      split at ht
      next => cases ht
      next =>
        split at ht
        next =>
          obtain ⟨⟨v, r₃⟩, hv, heq⟩ := Option.map_eq_some_iff.mp ht
          cases heq
          exact ⟨hS _ k r₁ hread, h _ v _ hv⟩
        next => cases ht
    next => cases ht

end Sequences

theorem gives_readValue {P : Value → Prop} {S : Str → Prop} (hS : Gives readChars S)
    (word : ∀ t v, scalar t = some v → P v) (str : ∀ s, S s → P (.str s)) (arr : ∀ xs, (∀ x ∈ xs, P x) → P (.arr xs))
    (obj : ∀ fs : List (Str × Value), (∀ f ∈ fs, S f.1 ∧ P f.2) → P (.obj fs)) (n : ℕ) : Gives (readValue n) P := by
  induction n with
  | zero =>
    intro t v r h
    cases h
  | succ n ih =>
    intro t v r h
    cases t with
    | nil => cases h
    | cons c t =>
      rw [readValue] at h
      split at h
      next =>
        obtain ⟨⟨s, r'⟩, hread, heq⟩ := Option.map_eq_some_iff.mp h
        cases heq
        exact str s (hS t s _ hread)
      next =>
      split at h
      next =>
        obtain ⟨⟨xs, r'⟩, hread, heq⟩ := Option.map_eq_some_iff.mp h
        cases heq
        exact arr xs (gives_readMembers ih t xs _ hread)
      next =>
      split at h
      next =>
        obtain ⟨⟨fs, r'⟩, hread, heq⟩ := Option.map_eq_some_iff.mp h
        cases heq
        exact obj fs (gives_readMembers (gives_readField hS ih) t fs _ hread)
      next =>
        obtain ⟨w, hw, heq⟩ := Option.map_eq_some_iff.mp h
        cases heq
        exact word _ _ hw

/-! ### Documents -/

/-- The numbers are finite and the strings have no split pairs. -/
def Plain (v : Value) : Prop := finite v = true ∧ ∀ s ∈ strings v, Unpaired s

theorem plain_scalar {t : Text} {v : Value} (h : scalar t = some v) : Plain v := by
  unfold scalar at h
  repeat' split at h
  all_goals
    cases h <;> exact ⟨rfl, nofun⟩

theorem plain_arr {items : List Value} : Plain (.arr items) ↔ ∀ v ∈ items, Plain v := by
  simp only [Plain, finite, strings, finiteItems_iff, mem_stringsOfItems]
  constructor
  · exact fun h v hv => ⟨h.1 v hv, fun s hs => h.2 s ⟨v, hv, hs⟩⟩
  · rintro h
    refine ⟨fun v hv => (h v hv).1, ?_⟩
    rintro s ⟨v, hv, hs⟩
    exact (h v hv).2 s hs

theorem plain_obj {fields : List (Str × Value)} : Plain (.obj fields) ↔ ∀ f ∈ fields, Unpaired f.1 ∧ Plain f.2 := by
  simp only [Plain, finite, strings, finiteFields_iff, mem_stringsOfFields]
  constructor
  · exact fun h f hf => ⟨h.2 _ ⟨f, hf, .inl rfl⟩, h.1 f hf, fun s hs => h.2 s ⟨f, hf, .inr hs⟩⟩
  · rintro h
    refine ⟨fun f hf => (h f hf).2.1, ?_⟩
    rintro s ⟨f, hf, rfl | hs⟩
    · exact (h f hf).1
    · exact (h f hf).2.2 s hs

theorem plain_of_read {t : Text} {v : Value} (h : read t = some v) : Plain v := by
  obtain ⟨⟨w, r⟩, hread, h⟩ := Option.bind_eq_some_iff.mp h
  dsimp only at h
  split at h
  next =>
    cases h
    refine gives_readValue gives_readChars (fun t v => plain_scalar) (fun s hs => ⟨rfl, ?_⟩)
      (fun xs hxs => plain_arr.mpr hxs) (fun fs hfs => plain_obj.mpr hfs) _ _ _ _ hread
    exact List.forall_mem_singleton.mpr hs
  next => cases h

theorem read_dump_of_plain {v : Value} (h : Plain v) : read (dump v) = some v := by
  rw [read_dump, decode, if_pos h.1]
  exact congrArg some (mapStrings_eq_self_iff.mpr fun s hs => merge_eq_self_iff.mpr (h.2 s hs))

/-- The values of documents are those that their own text is read back as. -/
theorem exists_read_iff {v : Value} : (∃ t, read t = some v) ↔ Plain v :=
  ⟨fun ⟨_, h⟩ => plain_of_read h, fun h => ⟨dump v, read_dump_of_plain h⟩⟩

/-! ### The lengths of documents -/

theorem length_joined_le {ts us : List Text} (h : List.Forall₂ (fun t u => t.length ≤ u.length) ts us) :
    (joined ts).length ≤ (joined us).length := by
  induction h with
  | nil => exact Nat.le_refl 0
  | cons h hs ih =>
    cases hs with
    | nil => exact h
    | cons h' hs' =>
      simp only [joined, List.length_append, List.length_cons] at ih ⊢
      omega

theorem length_dump_arr_le {vs ws : List Value} (h : List.Forall₂ (fun v w => (dump v).length ≤ (dump w).length) vs ws) :
    (dump (.arr vs)).length ≤ (dump (.arr ws)).length := by
  have hjoined := length_joined_le (List.forall₂_map_left_iff.mpr (List.forall₂_map_right_iff.mpr h))
  rw [dump_arr, dump_arr]
  simp only [List.length_append, List.length_cons]
  omega

theorem length_dump_obj_le {fs gs : List (Str × Value)}
    (h : List.Forall₂ (fun f g => f.1 = g.1 ∧ (dump f.2).length ≤ (dump g.2).length) fs gs) :
    (dump (.obj fs)).length ≤ (dump (.obj gs)).length := by
  have hfields : List.Forall₂
      (fun f g : Str × Value => (dumpField f.1 (dump f.2)).length ≤ (dumpField g.1 (dump g.2)).length) fs gs := by
    refine h.imp fun f g ⟨hname, hle⟩ => ?_
    simp only [dumpField, List.length_append, List.length_cons, hname]
    omega
  have hjoined := length_joined_le (List.forall₂_map_left_iff.mpr (List.forall₂_map_right_iff.mpr hfields))
  rw [dump_obj, dump_obj]
  simp only [List.length_append, List.length_cons]
  omega

end ReleaseValidation.JsonTexts
