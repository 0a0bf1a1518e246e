import Mathlib.Data.List.Basic

/-! # The parties of a system

The parties are kept in a list, each known by its position. A step moves one of them
or lets a new one in, and what every other party relies on has to survive it.
-/
namespace ReleaseValidation.Parties
variable {τ : Type*} {ts : List τ} {i j : ℕ} {t new : τ}

theorem getElem?_set_cases (h : (ts.set i new)[j]? = some t) : j = i ∧ t = new ∨ j ≠ i ∧ ts[j]? = some t := by
  by_cases hij : i = j
  · subst hij
    have hlt : i < ts.length := by simpa using (List.getElem?_eq_some_iff.mp h).1
    rw [List.getElem?_set_self hlt] at h
    cases h
    exact .inl ⟨rfl, rfl⟩
  · rw [List.getElem?_set_ne hij] at h
    exact .inr ⟨Ne.symm hij, h⟩

theorem getElem?_append_cases (h : (ts ++ [new])[j]? = some t) :
    j = ts.length ∧ t = new ∨ ts[j]? = some t := by
  by_cases hlt : j < ts.length
  · rw [List.getElem?_append_left hlt] at h
    exact .inr h
  · rw [List.getElem?_append_right (Nat.le_of_not_lt hlt), List.getElem?_singleton] at h
    split at h
    next hj =>
      cases h
      exact .inl ⟨by omega, rfl⟩
    · cases h

theorem getElem?_append_of_some (h : ts[j]? = some t) : (ts ++ [new])[j]? = some t := by
  rw [List.getElem?_append_left (List.getElem?_eq_some_iff.mp h).1]
  exact h

theorem getElem?_set_of_some (hi : ts[i]? = some t) : (ts.set i new)[i]? = some new :=
  List.getElem?_set_self (List.getElem?_eq_some_iff.mp hi).1

/-- Every party, at its position, satisfies `P`. -/
def Each (P : ℕ → τ → Prop) (ts : List τ) : Prop := ∀ (i : ℕ) (t : τ), ts[i]? = some t → P i t

/-- No two parties satisfy `P` at a time. -/
def AtMostOne (P : τ → Prop) (ts : List τ) : Prop :=
  ∀ (i j : ℕ) (t u : τ), ts[i]? = some t → ts[j]? = some u → P t → P u → i = j

variable {P Q : ℕ → τ → Prop} {R : τ → Prop}

theorem Each.set (h : Each P ts) (hnew : Q i new)
    (hother : ∀ j t, j ≠ i → ts[j]? = some t → P j t → Q j t) : Each Q (ts.set i new) := by
  intro j t hj
  obtain ⟨rfl, rfl⟩ | ⟨hne, hj⟩ := getElem?_set_cases hj
  · exact hnew
  · exact hother j t hne hj (h j t hj)

theorem Each.append (h : Each P ts) (hnew : Q ts.length new)
    (hother : ∀ j t, ts[j]? = some t → P j t → Q j t) : Each Q (ts ++ [new]) := by
  intro j t hj
  obtain ⟨rfl, rfl⟩ | hj := getElem?_append_cases hj
  · exact hnew
  · exact hother j t hj (h j t hj)

/-- A party may come to satisfy `R` when no other one does. -/
theorem AtMostOne.set (h : AtMostOne R ts) (hnew : R new → ∀ j t, j ≠ i → ts[j]? = some t → ¬ R t) :
    AtMostOne R (ts.set i new) := by
  intro j k t u hj hk ht hu
  obtain ⟨rfl, rfl⟩ | ⟨hji, hj'⟩ := getElem?_set_cases hj <;>
    obtain ⟨rfl, rfl⟩ | ⟨hki, hk'⟩ := getElem?_set_cases hk
  · rfl
  · exact absurd hu (hnew ht k u hki hk')
  · exact absurd ht (hnew hu j t hji hj')
  · exact h j k t u hj' hk' ht hu

theorem AtMostOne.append (h : AtMostOne R ts) (hnew : ¬ R new) : AtMostOne R (ts ++ [new]) := by
  intro j k t u hj hk ht hu
  obtain ⟨rfl, rfl⟩ | hj := getElem?_append_cases hj
  · exact absurd ht hnew
  · obtain ⟨rfl, rfl⟩ | hk := getElem?_append_cases hk
    · exact absurd hu hnew
    · exact h j k t u hj hk ht hu

/-- A new party may satisfy `R` when no one does yet. -/
theorem atMostOne_append_iff : AtMostOne R (ts ++ [new]) ↔ AtMostOne R ts ∧ (R new → ∀ t ∈ ts, ¬ R t) := by
  have hlast : (ts ++ [new])[ts.length]? = some new := by simp
  constructor
  · intro h
    refine ⟨fun i j t u hi hj => h i j t u (getElem?_append_of_some hi) (getElem?_append_of_some hj), ?_⟩
    intro hnew t ht hR
    obtain ⟨i, hi⟩ := List.mem_iff_getElem?.mp ht
    have hlt : i < ts.length := (List.getElem?_eq_some_iff.mp hi).1
    have heq : i = ts.length := h i ts.length t new (getElem?_append_of_some hi) hlast hR hnew
    omega
  · rintro ⟨h, hfresh⟩ i j t u hi hj ht hu
    obtain ⟨rfl, rfl⟩ | hi' := getElem?_append_cases hi <;> obtain ⟨rfl, rfl⟩ | hj' := getElem?_append_cases hj
    · rfl
    · exact absurd hu (hfresh ht u (List.mem_of_getElem? hj'))
    · exact absurd ht (hfresh hu t (List.mem_of_getElem? hi'))
    · exact h i j t u hi' hj' ht hu

/-- While the party at `i` satisfies `R`, no other one does. -/
theorem AtMostOne.other (h : AtMostOne R ts) (hi : ts[i]? = some t) (ht : R t) {u : τ} (hj : ts[j]? = some u)
    (hne : j ≠ i) : ¬ R u :=
  fun hu => hne (h j i u t hj hi hu ht)

/-- How many parties satisfy a test, when one of them becomes another. -/
theorem countP_set_add {p : τ → Bool} (hi : ts[i]? = some t) :
    (ts.set i new).countP p + (if p t = true then 1 else 0) = ts.countP p + if p new = true then 1 else 0 := by
  obtain ⟨hlt, rfl⟩ := List.getElem?_eq_some_iff.mp hi
  have hle := List.boole_getElem_le_countP (p := p) hlt
  rw [List.countP_set hlt]
  omega

/-- What the parties have in their hands, when one of them puts away what it has for something else. -/
theorem filterMap_set_perm {β : Type*} {f : τ → Option β} (hi : ts[i]? = some t) :
    ((ts.set i new).filterMap f ++ (f t).toList).Perm (ts.filterMap f ++ (f new).toList) := by
  have hcons : ∀ u us, List.filterMap f (u :: us) = (f u).toList ++ us.filterMap f := by
    intro u us
    cases hu : f u with
    | none => exact List.filterMap_cons_none hu
    | some x => exact List.filterMap_cons_some hu
  induction ts generalizing i with
  | nil => cases hi
  | cons u ts ih =>
    cases i with
    | zero =>
      cases hi
      rw [List.set_cons_zero, hcons, hcons, List.append_assoc]
      have hlast : ((f new).toList ++ (ts.filterMap f ++ (f t).toList)).Perm
          ((f new).toList ++ ((f t).toList ++ ts.filterMap f)) := List.perm_append_comm.append_left _
      have hswap := List.perm_append_comm_assoc (f new).toList (f t).toList (ts.filterMap f)
      have hnew : ((f t).toList ++ ((f new).toList ++ ts.filterMap f)).Perm
          ((f t).toList ++ (ts.filterMap f ++ (f new).toList)) := List.perm_append_comm.append_left _
      rw [List.append_assoc]
      exact hlast.trans (hswap.trans hnew)
    | succ i =>
      rw [List.set_cons_succ, hcons, hcons, List.append_assoc, List.append_assoc]
      exact (ih hi).append_left _

end ReleaseValidation.Parties
