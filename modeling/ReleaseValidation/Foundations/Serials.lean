import Mathlib.Data.List.Nodup
import Mathlib.Data.List.Range

/-! # Tables whose rows are numbered in the order of insertion

A new row bears the number of rows before it, rows are changed where a condition on the
row holds, and no row is ever removed.
-/
namespace ReleaseValidation.Serials
variable {ρ : Type*} {key : ρ → ℕ} {rows : List ρ} {r r' : ρ} {p : ρ → Bool} {f : ρ → ρ}

/-- Each row bears the number of its position. -/
def Numbered (key : ρ → ℕ) (rows : List ρ) : Prop := rows.map key = List.range rows.length

/-- `UPDATE … WHERE p`. -/
def updateWhere (p : ρ → Bool) (f : ρ → ρ) (rows : List ρ) : List ρ := rows.map fun r => if p r then f r else r

theorem numbered_nil : Numbered key [] := rfl

theorem Numbered.append (h : Numbered key rows) (hr : key r = rows.length) : Numbered key (rows ++ [r]) := by
  unfold Numbered at h ⊢
  rw [List.map_append, h, List.length_append, List.length_singleton, List.range_succ, List.map_singleton, hr]

@[simp] theorem length_updateWhere : (updateWhere p f rows).length = rows.length := List.length_map _

theorem mem_updateWhere : r ∈ updateWhere p f rows ↔ ∃ r₀ ∈ rows, (if p r₀ then f r₀ else r₀) = r := List.mem_map

theorem map_updateWhere {β : Type*} {g : ρ → β} (hg : ∀ r, p r = true → g (f r) = g r) :
    (updateWhere p f rows).map g = rows.map g := by
  rw [updateWhere, List.map_map]
  apply List.map_congr_left
  intro r _
  rw [Function.comp_apply]
  split
  next hp => exact hg r hp
  next => rfl

/-- Each row beside what the update makes of it. -/
theorem zip_updateWhere_append (rows rows' : List ρ) :
    rows.zip (updateWhere p f rows ++ rows') = rows.map fun r => (r, if p r then f r else r) := by
  induction rows with
  | nil => exact List.zip_nil_left
  | cons r rows ih => exact congrArg (_ :: ·) ih

/-- An update of rows that are not selected, to rows that are not, changes no selection. -/
theorem filter_updateWhere {q : ρ → Bool} (h : ∀ r ∈ rows, p r = true → q r = false ∧ q (f r) = false) :
    (updateWhere p f rows).filter q = rows.filter q := by
  induction rows with
  | nil => rfl
  | cons r rows ih =>
    have hrest := ih fun r' hr' => h r' (List.mem_cons_of_mem _ hr')
    change List.filter q ((if p r then f r else r) :: Serials.updateWhere p f rows) = _
    split
    next hp =>
      obtain ⟨hr, hfr⟩ := h r List.mem_cons_self hp
      rw [List.filter_cons, hfr, List.filter_cons, hr, hrest]
      rfl
    next => rw [List.filter_cons, List.filter_cons, hrest]

/-- An update that makes the selected rows satisfy `q`, which none of them did. -/
theorem countP_updateWhere {q : ρ → Bool} (h : ∀ r, p r = true → q r = false ∧ q (f r) = true) (rows : List ρ) :
    (updateWhere p f rows).countP q = rows.countP p + rows.countP q := by
  induction rows with
  | nil => rfl
  | cons r rows ih =>
    change List.countP q ((if p r then f r else r) :: Serials.updateWhere p f rows) = _
    rw [List.countP_cons, List.countP_cons, List.countP_cons, ih]
    cases hp : p r with
    | false =>
      simp only [Bool.false_eq_true, ↓reduceIte]
      omega
    | true =>
      obtain ⟨hr, hfr⟩ := h r hp
      simp only [↓reduceIte, hr, hfr, Bool.false_eq_true]
      omega

theorem Numbered.updateWhere (h : Numbered key rows) (hkey : ∀ r, p r = true → key (f r) = key r) :
    Numbered key (updateWhere p f rows) := by
  unfold Numbered
  rw [map_updateWhere hkey, length_updateWhere]
  exact h

theorem Numbered.nodup (h : Numbered key rows) : (rows.map key).Nodup := by
  rw [h]
  exact List.nodup_range

theorem Numbered.eq_of_key (h : Numbered key rows) (hr : r ∈ rows) (hr' : r' ∈ rows) (he : key r = key r') :
    r = r' := List.inj_on_of_nodup_map h.nodup hr hr' he

theorem Numbered.key_lt (h : Numbered key rows) (hr : r ∈ rows) : key r < rows.length := by
  have hmem : key r ∈ rows.map key := List.mem_map_of_mem hr
  rw [h] at hmem
  exact List.mem_range.mp hmem

end ReleaseValidation.Serials
