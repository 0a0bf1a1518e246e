import Mathlib.Data.List.Basic

/-! # Batches that are handed over one by one

Batches wait at places, each for its turn to leave, and those that have left are one
sequence. The sequence keeps an order between its elements, if a batch leaves only
when no element that has to come before one of its own is still waiting elsewhere.
-/
namespace ReleaseValidation.Handovers
variable {α : Type*} {R : α → α → Prop} {out b : List α} {inside inside' : ℕ → Option (List α)} {i : ℕ}

/-- What has left is in order, and so are each waiting batch and what has left before it. -/
structure InTurn (R : α → α → Prop) (out : List α) (inside : ℕ → Option (List α)) : Prop where
  ordered : out.Pairwise R
  batch : ∀ i b, inside i = some b → b.Pairwise R
  ahead : ∀ i b, inside i = some b → ∀ x ∈ out, ∀ y ∈ b, R x y

/-- No other batch holds an element that has to come before one of the batch at `i`. -/
def Foremost (R : α → α → Prop) (inside : ℕ → Option (List α)) (i : ℕ) : Prop :=
  ∀ b, inside i = some b → ∀ j b', j ≠ i → inside j = some b' → ∀ x ∈ b, ∀ y ∈ b', R x y

/-- It can be decided if only the places below `n` may hold a batch. -/
def decidableForemost [DecidableRel R] (inside : ℕ → Option (List α)) (i n : ℕ) (h : ∀ j b, inside j = some b → j < n) :
    Decidable (Foremost R inside i) :=
  decidable_of_iff (∀ b ∈ inside i, ∀ j ∈ List.range n, j ≠ i → ∀ b' ∈ inside j, ∀ x ∈ b, ∀ y ∈ b', R x y)
    ⟨fun hb b hi j b' hne hj => hb b hi j (List.mem_range.mpr (h j b' hj)) hne b' hj,
      fun hb b hi j _ hne b' hj => hb b hi j b' hne hj⟩

theorem inTurn_nil (h : ∀ i, inside i = none) : InTurn R [] inside where
  ordered := .nil
  batch i b hb := by cases (h i).symm.trans hb
  ahead i b hb := by cases (h i).symm.trans hb

/-- A batch may come to wait if what has left comes before it. -/
theorem InTurn.enter (h : InTurn R out inside) (hb : b.Pairwise R) (hahead : ∀ x ∈ out, ∀ y ∈ b, R x y)
    (hinside : ∀ j b', inside' j = some b' → b' = b ∨ inside j = some b') : InTurn R out inside' where
  ordered := h.ordered
  batch j b' hb' := by
    obtain rfl | hj := hinside j b' hb'
    · exact hb
    · exact h.batch j b' hj
  ahead j b' hb' := by
    obtain rfl | hj := hinside j b' hb'
    · exact hahead
    · exact h.ahead j b' hj

theorem InTurn.leave (h : InTurn R out inside) (hi : inside i = some b) (hfore : Foremost R inside i)
    (hinside : ∀ j b', inside' j = some b' → j ≠ i ∧ inside j = some b') : InTurn R (out ++ b) inside' where
  ordered := List.pairwise_append.mpr ⟨h.ordered, h.batch i b hi, h.ahead i b hi⟩
  batch j b' hb' := h.batch j b' (hinside j b' hb').2
  ahead j b' hb' := by
    obtain ⟨hne, hj⟩ := hinside j b' hb'
    intro x hx y hy
    obtain hx | hx := List.mem_append.mp hx
    · exact h.ahead j b' hj x hx y hy
    · exact hfore b hi j b' hne hj x hx y hy

/-- A batch that is given up leaves the others as they are. -/
theorem InTurn.mono (h : InTurn R out inside) (hinside : ∀ j b', inside' j = some b' → inside j = some b') :
    InTurn R out inside' where
  ordered := h.ordered
  batch j b' hb' := h.batch j b' (hinside j b' hb')
  ahead j b' hb' := h.ahead j b' (hinside j b' hb')

end ReleaseValidation.Handovers
