import Mathlib.Data.List.Infix

/-! # Splitting at separators

A text is split at the separators that are recognised in it from the left. What lies between two of
them has no separator in it, and a text in which none starts stays whole.
-/
namespace ReleaseValidation.Separators
variable {α β : Type*}

section Split
-- what a separator at the front of a text is, and how many elements it has after its first one
variable (sep : List α → Option (β × ℕ))

/-- The pieces and the separators, after what is left of the last separator and with a piece begun. -/
def scan : ℕ → List α → List α → List (List α ⊕ β)
  | _, piece, [] => [.inl piece]
  | n + 1, piece, _ :: s => scan n piece s
  | 0, piece, c :: s =>
    match sep (c :: s) with
    | some (b, n) => .inl piece :: .inr b :: scan n [] s
    | none => scan 0 (piece ++ [c]) s

def split (s : List α) : List (List α ⊕ β) := scan sep 0 [] s

/-- No separator starts in the text when `s` is behind it. -/
def Plain (text s : List α) : Prop := ∀ t, t <:+ text → t ≠ [] → sep (t ++ s) = none

instance [DecidableEq α] (text s : List α) : Decidable (Plain sep text s) :=
  decidable_of_iff (∀ t ∈ text.tails, t ≠ [] → sep (t ++ s) = none)
    (forall_congr' fun t => imp_congr_left (List.mem_tails t text))

/-- A separator is recognised whatever follows it. -/
def Extends : Prop := ∀ text s r, sep text = some r → sep (text ++ s) = some r

variable {sep}

theorem scan_skip (xs piece s : List α) : scan sep xs.length piece (xs ++ s) = scan sep 0 piece s := by
  induction xs with
  | nil => rfl
  | cons x xs ih => exact ih

theorem scan_separator {c : α} {xs s : List α} {b : β} (h : sep (c :: (xs ++ s)) = some (b, xs.length))
    (piece : List α) : scan sep 0 piece (c :: (xs ++ s)) = .inl piece :: .inr b :: scan sep 0 [] s := by
  rw [scan, h]
  exact congrArg (fun l => .inl piece :: .inr b :: l) (scan_skip xs [] s)

theorem plain_nil (s : List α) : Plain sep [] s := fun _ ht hne => absurd (List.suffix_nil.mp ht) hne

theorem Plain.tail {c : α} {text s : List α} (h : Plain sep (c :: text) s) : Plain sep text s :=
  fun t ht => h t (ht.trans (List.suffix_cons c text))

/-- A piece grows by an element at which no separator starts. -/
theorem Plain.concat {c : α} {piece s : List α} (h : Plain sep piece (c :: s)) (hc : sep (c :: s) = none) :
    Plain sep (piece ++ [c]) s := by
  intro t ht hne
  rcases List.suffix_concat_iff.mp ht with rfl | ⟨t, rfl, hpiece⟩
  · exact absurd rfl hne
  · rw [List.append_assoc, List.singleton_append]
    cases t with
    | nil => exact hc
    | cons d t => exact h _ hpiece (List.cons_ne_nil d t)

theorem scan_plain {text s : List α} (h : Plain sep text s) (piece : List α) :
    scan sep 0 piece (text ++ s) = scan sep 0 (piece ++ text) s := by
  induction text generalizing piece with
  | nil => simp
  | cons c text ih =>
    have hnone : sep (c :: text ++ s) = none := h _ (List.suffix_refl _) (List.cons_ne_nil _ _)
    rw [List.cons_append] at hnone ⊢
    rw [scan, hnone]
    exact (ih h.tail _).trans (by rw [List.append_assoc, List.singleton_append])

/-- No piece has a separator in it. -/
theorem plain_of_mem_scan (hsep : Extends sep) {n : ℕ} {piece s p : List α} (hn : n ≠ 0 → piece = [])
    (hpiece : Plain sep piece s) (hp : .inl p ∈ scan sep n piece s) : Plain sep p [] := by
  induction s generalizing n piece with
  | nil =>
    rw [scan, List.mem_singleton] at hp
    cases hp
    exact hpiece
  | cons c s ih =>
    cases n with
    | succ n =>
      cases hn (Nat.succ_ne_zero n)
      exact ih (fun _ => rfl) (plain_nil s) hp
    | zero =>
      cases hc : sep (c :: s) with
      | some r =>
        rw [scan, hc] at hp
        simp only [List.mem_cons, Sum.inl.injEq, reduceCtorEq, false_or] at hp
        rcases hp with rfl | hp
        · intro t ht hne
          rw [List.append_nil, Option.eq_none_iff_forall_ne_some]
          intro r ht'
          cases (hsep t (c :: s) r ht').symm.trans (hpiece t ht hne)
        · exact ih (fun _ => rfl) (plain_nil s) hp
      | none =>
        rw [scan, hc] at hp
        exact ih (fun h => absurd rfl h) (hpiece.concat hc) hp

theorem recognised_of_mem_scan {n : ℕ} {piece s : List α} {b : β} (hb : .inr b ∈ scan sep n piece s) :
    ∃ t k, sep t = some (b, k) := by
  induction s generalizing n piece with
  | nil => simp [scan] at hb
  | cons c s ih =>
    cases n with
    | succ n => exact ih hb
    | zero =>
      cases hc : sep (c :: s) with
      | some r =>
        rw [scan, hc] at hb
        simp only [List.mem_cons, reduceCtorEq, Sum.inr.injEq, false_or] at hb
        rcases hb with rfl | hb
        · exact ⟨_, _, hc⟩
        · exact ih hb
      | none =>
        rw [scan, hc] at hb
        exact ih hb

end Split
end ReleaseValidation.Separators
