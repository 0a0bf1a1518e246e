import Mathlib.Data.List.Nodup
import Mathlib.Order.MinMax

/-! # Readers that start again

A reader goes through the positions of a sequence from where it has started, keeps those that
are wanted and may start again elsewhere. It has passed every position below `seen`. Nothing
is left out if it never starts behind a wanted position that it has not passed, and nothing
is kept twice if it never starts before one that it has.
-/
namespace ReleaseValidation.Resumption
variable {wanted wanted' : ℕ → Prop} {seen k n : ℕ} {got : List ℕ} {cursor : Option ℕ}

/-- Every wanted position that has been passed is kept, and the reader is not behind another one. -/
structure Complete (wanted : ℕ → Prop) (seen : ℕ) (got : List ℕ) (cursor : Option ℕ) : Prop where
  kept : ∀ i, i < seen → wanted i → i ∈ got
  gap : ∀ k, cursor = some k → ∀ i, seen ≤ i → i < k → ¬ wanted i

/-- No position is kept twice, and the reader is not before a wanted one that it has passed. -/
structure Once (wanted : ℕ → Prop) (seen : ℕ) (got : List ℕ) (cursor : Option ℕ) : Prop where
  nodup : got.Nodup
  below : ∀ i ∈ got, i < seen
  fresh : ∀ k, cursor = some k → ∀ i, k ≤ i → i < seen → ¬ wanted i

theorem complete_nil : Complete wanted 0 [] none := ⟨nofun, nofun⟩

theorem once_nil : Once wanted 0 [] none := ⟨List.nodup_nil, nofun, nofun⟩

namespace Complete

theorem start (h : Complete wanted seen got cursor) (hk : ∀ i, seen ≤ i → i < k → ¬ wanted i) :
    Complete wanted seen got (some k) := by
  refine ⟨h.kept, ?_⟩
  rintro _ ⟨⟩
  exact hk

theorem stop (h : Complete wanted seen got cursor) : Complete wanted seen got none := ⟨h.kept, nofun⟩

/-- The position at the cursor is kept if it is wanted. -/
theorem read (h : Complete wanted seen got (some k)) {got' : List ℕ} (hgot : ∀ i ∈ got, i ∈ got')
    (hk : wanted k → k ∈ got') : Complete wanted (max seen (k + 1)) got' (some (k + 1)) := by
  refine ⟨fun i hi hw => ?_, ?_⟩
  · by_cases hseen : i < seen
    · exact hgot i (h.kept i hseen hw)
    · by_cases hik : i < k
      · exact absurd hw (h.gap k rfl i (by omega) hik)
      · obtain rfl : i = k := by omega
        exact hk hw
  · rintro _ ⟨⟩ i hi hlt
    omega

/-- What comes to be wanted lies where the reader has not been. -/
theorem congr (h : Complete wanted seen got cursor) (hwanted : ∀ i < n, wanted' i ↔ wanted i) (hseen : seen ≤ n)
    (hcursor : ∀ k, cursor = some k → k ≤ n) : Complete wanted' seen got cursor where
  kept i hi hw := h.kept i hi ((hwanted i (by omega)).mp hw)
  gap k hk i hi hlt hw := by
    have hn := hcursor k hk
    exact h.gap k hk i hi hlt ((hwanted i (by omega)).mp hw)

end Complete

namespace Once

theorem start (h : Once wanted seen got cursor) (hk : ∀ i, k ≤ i → i < seen → ¬ wanted i) :
    Once wanted seen got (some k) := by
  refine ⟨h.nodup, h.below, ?_⟩
  rintro _ ⟨⟩
  exact hk

theorem stop (h : Once wanted seen got cursor) : Once wanted seen got none := ⟨h.nodup, h.below, nofun⟩

/-- A position that is not wanted is passed. -/
theorem skip (h : Once wanted seen got (some k)) : Once wanted (max seen (k + 1)) got (some (k + 1)) := by
  refine ⟨h.nodup, fun i hi => lt_max_of_lt_left (h.below i hi), ?_⟩
  rintro _ ⟨⟩ i hi hlt
  exact h.fresh k rfl i (by omega) (by omega)

theorem read (h : Once wanted seen got (some k)) (hw : wanted k) :
    Once wanted (max seen (k + 1)) (got ++ [k]) (some (k + 1)) := by
  have hk : seen ≤ k := by
    by_contra hlt
    exact h.fresh k rfl k le_rfl (by omega) hw
  have hnew : k ∉ got := by
    intro hmem
    have hlt := h.below k hmem
    omega
  refine ⟨?_, ?_, h.skip.fresh⟩
  · rw [List.nodup_append]
    refine ⟨h.nodup, List.nodup_singleton k, ?_⟩
    rintro i hi _ hj rfl
    rw [List.mem_singleton.mp hj] at hi
    exact hnew hi
  · intro i hi
    obtain hi | hi := List.mem_append.mp hi
    · exact lt_max_of_lt_left (h.below i hi)
    · rw [List.mem_singleton.mp hi]
      exact lt_max_of_lt_right (Nat.lt_succ_self k)

theorem congr (h : Once wanted seen got cursor) (hwanted : ∀ i < n, wanted' i ↔ wanted i) (hseen : seen ≤ n) :
    Once wanted' seen got cursor where
  nodup := h.nodup
  below := h.below
  fresh k hk i hi hlt hw := h.fresh k hk i hi hlt ((hwanted i (by omega)).mp hw)

end Once

end ReleaseValidation.Resumption
