import Mathlib.Data.List.AList

/-! # Tables with a primary key

A table maps keys to rows. A row whose key is taken is refused, so of several rows
that are offered under one key the first is kept. What a list of offers adds to a
table is read off the keys of the offers.
-/
namespace ReleaseValidation.Tables

abbrev Table (κ ρ : Type) := AList (fun _ : κ => ρ)

variable {κ ρ : Type} [DecidableEq κ]

/-- Insert the row, unless its key is taken. -/
def claim (t : Table κ ρ) (x : κ × ρ) : Table κ ρ :=
  if x.1 ∈ t then t else t.insert x.1 x.2

def claimAll (t : Table κ ρ) (xs : List (κ × ρ)) : Table κ ρ := xs.foldl claim t

theorem claim_of_mem {t : Table κ ρ} {x : κ × ρ} (h : x.1 ∈ t) : claim t x = t := if_pos h

theorem claim_of_notMem {t : Table κ ρ} {x : κ × ρ} (h : x.1 ∉ t) :
    claim t x = t.insert x.1 x.2 := if_neg h

theorem mem_claim {t : Table κ ρ} {x : κ × ρ} {k : κ} : k ∈ claim t x ↔ k = x.1 ∨ k ∈ t := by
  by_cases h : x.1 ∈ t
  · rw [claim_of_mem h]
    constructor
    · exact Or.inr
    · rintro (rfl | hk)
      · exact h
      · exact hk
  · rw [claim_of_notMem h, AList.mem_insert]

theorem lookup_claim_of_mem {t : Table κ ρ} {k : κ} (hk : k ∈ t) (x : κ × ρ) :
    (claim t x).lookup k = t.lookup k := by
  by_cases h : x.1 ∈ t
  · rw [claim_of_mem h]
  · rw [claim_of_notMem h]
    have hne : k ≠ x.1 := by
      intro he
      rw [he] at hk
      exact h hk
    exact AList.lookup_insert_ne hne

theorem lookup_claim_cases {t : Table κ ρ} {k : κ} {r r' : ρ} (h : (claim t (k, r)).lookup k = some r') :
    t.lookup k = some r' ∨ t.lookup k = none ∧ r' = r := by
  by_cases hk : k ∈ t
  · rw [claim_of_mem hk] at h
    exact .inl h
  · rw [claim_of_notMem hk, AList.lookup_insert, Option.some_inj] at h
    exact .inr ⟨AList.lookup_eq_none.mpr hk, h.symm⟩

theorem lookup_insert_eq {t : Table κ ρ} {k : κ} {r r' : ρ} (h : (t.insert k r).lookup k = some r') : r' = r :=
  Option.some.inj (h.symm.trans (AList.lookup_insert t))

theorem mem_claimAll {t : Table κ ρ} {xs : List (κ × ρ)} {k : κ} :
    k ∈ claimAll t xs ↔ k ∈ t ∨ ∃ x ∈ xs, x.1 = k := by
  induction xs generalizing t with
  | nil => simp [claimAll]
  | cons x xs ih =>
    have hstep : claimAll t (x :: xs) = claimAll (claim t x) xs := rfl
    rw [hstep, ih, mem_claim]
    constructor
    · rintro ((rfl | hk) | ⟨y, hy, rfl⟩)
      · exact .inr ⟨x, List.mem_cons_self, rfl⟩
      · exact .inl hk
      · exact .inr ⟨y, List.mem_cons_of_mem _ hy, rfl⟩
    · rintro (hk | ⟨y, hy, rfl⟩)
      · exact .inl (.inr hk)
      · rcases List.mem_cons.mp hy with rfl | hy
        · exact .inl (.inl rfl)
        · exact .inr ⟨y, hy, rfl⟩

theorem lookup_claimAll_of_mem {t : Table κ ρ} {k : κ} (hk : k ∈ t) (xs : List (κ × ρ)) :
    (claimAll t xs).lookup k = t.lookup k := by
  induction xs generalizing t with
  | nil => rfl
  | cons x xs ih =>
    have hstep : claimAll t (x :: xs) = claimAll (claim t x) xs := rfl
    rw [hstep, ih (mem_claim.mpr (.inr hk)), lookup_claim_of_mem hk]

theorem lookup_claimAll_cons {t : Table κ ρ} {x : κ × ρ} (h : x.1 ∉ t) (xs : List (κ × ρ)) :
    (claimAll t (x :: xs)).lookup x.1 = some x.2 := by
  have hmem : x.1 ∈ claim t x := mem_claim.mpr (.inl rfl)
  have hstep : claimAll t (x :: xs) = claimAll (claim t x) xs := rfl
  rw [hstep, lookup_claimAll_of_mem hmem, claim_of_notMem h, AList.lookup_insert]

/-- `u` has exactly one key that `t` does not have, and its row satisfies `P`. -/
def AddsOne (P : κ → ρ → Prop) (t u : Table κ ρ) : Prop :=
  ∃ k r, k ∉ t ∧ u.lookup k = some r ∧ P k r ∧ ∀ k' ∈ u, k' ∉ t → k' = k

/-- Offers under free keys add exactly one row when they all bear the key of the first. -/
theorem addsOne_claimAll_iff {P : κ → ρ → Prop} {t : Table κ ρ} {xs : List (κ × ρ)}
    (hfree : ∀ x ∈ xs, x.1 ∉ t) :
    AddsOne P t (claimAll t xs) ↔
      ∃ x rest, xs = x :: rest ∧ P x.1 x.2 ∧ ∀ y ∈ rest, y.1 = x.1 := by
  constructor
  · rintro ⟨k, r, hk, hr, hP, honly⟩
    cases xs with
    | nil =>
      have hmem : k ∈ t := AList.lookup_isSome.mp (by rw [show t.lookup k = some r from hr]; rfl)
      exact absurd hmem hk
    | cons x rest =>
      have hx : x.1 ∉ t := hfree x List.mem_cons_self
      have hkey : ∀ y ∈ x :: rest, y.1 = k := by
        intro y hy
        exact honly y.1 (mem_claimAll.mpr (.inr ⟨y, hy, rfl⟩)) (hfree y hy)
      have hxk : x.1 = k := hkey x List.mem_cons_self
      rw [← hxk, lookup_claimAll_cons hx] at hr
      obtain rfl := Option.some.inj hr
      refine ⟨x, rest, rfl, ?_, ?_⟩
      · rw [hxk]
        exact hP
      · intro y hy
        rw [hkey y (List.mem_cons_of_mem _ hy), hxk]
  · rintro ⟨x, rest, rfl, hP, hrest⟩
    have hx : x.1 ∉ t := hfree x List.mem_cons_self
    refine ⟨x.1, x.2, hx, lookup_claimAll_cons hx rest, hP, ?_⟩
    intro k hk hkt
    rcases mem_claimAll.mp hk with hmem | ⟨y, hy, rfl⟩
    · exact absurd hmem hkt
    · rcases List.mem_cons.mp hy with rfl | hy
      · rfl
      · exact hrest y hy

theorem not_addsOne_self {P : κ → ρ → Prop} (t : Table κ ρ) : ¬ AddsOne P t t := by
  rintro ⟨k, r, hk, hr, -, -⟩
  exact hk (AList.lookup_isSome.mp (by rw [hr]; rfl))

/-- The row of the key is what it was, or is gone. -/
def Stays (t u : Table κ ρ) (k : κ) : Prop := u.lookup k = t.lookup k ∨ u.lookup k = none

variable {t u : Table κ ρ} {k k' : κ} {r : ρ}

theorem Stays.refl (t : Table κ ρ) (k : κ) : Stays t t k := .inl rfl

theorem Stays.lookup (h : Stays t u k) (hr : u.lookup k = some r) : t.lookup k = some r := by
  rcases h with h | h
  · rw [← h, hr]
  · cases h.symm.trans hr

theorem Stays.trans {w : Table κ ρ} (h : Stays t u k) (h' : Stays u w k) : Stays t w k := by
  rcases h' with h' | h'
  · exact h.imp h'.trans h'.trans
  · exact .inr h'

theorem stays_erase (t : Table κ ρ) (k k' : κ) : Stays t (t.erase k') k := by
  by_cases h : k = k'
  · subst h
    exact .inr (AList.lookup_erase k t)
  · exact .inl (AList.lookup_erase_ne h)

theorem stays_insert (h : k ≠ k') : Stays t (t.insert k' r) k := .inl (AList.lookup_insert_ne h)

theorem stays_claim {x : κ × ρ} (h : k ≠ x.1) : Stays t (claim t x) k := by
  by_cases hmem : x.1 ∈ t
  · rw [claim_of_mem hmem]
    exact .refl t k
  · rw [claim_of_notMem hmem]
    exact stays_insert h

/-- Insert the rows by one statement that may not meet a key twice. -/
def insertOnce : Table κ ρ → List (κ × ρ) → Option (Table κ ρ)
  | t, [] => some t
  | t, x :: xs => if x.1 ∈ t then none else insertOnce (t.insert x.1 x.2) xs

theorem insertOnce_isSome_iff {t : Table κ ρ} {xs : List (κ × ρ)} :
    (insertOnce t xs).isSome = true ↔ (xs.map Prod.fst).Nodup ∧ ∀ x ∈ xs, x.1 ∉ t := by
  induction xs generalizing t with
  | nil => simp [insertOnce]
  | cons x xs ih =>
    rw [insertOnce, List.map_cons, List.nodup_cons, List.forall_mem_cons]
    by_cases hx : x.1 ∈ t
    · rw [if_pos hx]
      exact iff_of_false nofun fun h => h.2.1 hx
    · rw [if_neg hx, ih]
      constructor
      · rintro ⟨hnodup, hfree⟩
        refine ⟨⟨?_, hnodup⟩, hx, fun y hy hmem => ?_⟩
        · intro hmem
          obtain ⟨y, hy, he⟩ := List.mem_map.mp hmem
          exact hfree y hy ((AList.mem_insert _).mpr (.inl he))
        · exact hfree y hy ((AList.mem_insert _).mpr (.inr hmem))
      · rintro ⟨⟨hnew, hnodup⟩, -, hfree⟩
        refine ⟨hnodup, fun y hy hmem => ?_⟩
        rcases (AList.mem_insert _).mp hmem with he | hmem
        · exact hnew (List.mem_map.mpr ⟨y, hy, he⟩)
        · exact hfree y hy hmem

theorem lookup_insertOnce {t u : Table κ ρ} {xs : List (κ × ρ)} (h : insertOnce t xs = some u) {k : κ} {r : ρ}
    (hr : t.lookup k = some r ∨ (k, r) ∈ xs) : u.lookup k = some r := by
  induction xs generalizing t with
  | nil =>
    cases h
    exact hr.resolve_right List.not_mem_nil
  | cons x xs ih =>
    rw [insertOnce] at h
    split at h
    next => cases h
    next hx =>
      refine ih h ?_
      rcases hr with hr | hr
      · have hne : k ≠ x.1 := by
          rintro rfl
          exact hx (AList.lookup_isSome.mp (by rw [hr]; rfl))
        exact .inl ((AList.lookup_insert_ne hne).trans hr)
      · rcases List.mem_cons.mp hr with rfl | hr
        · exact .inl (AList.lookup_insert _)
        · exact .inr hr

end ReleaseValidation.Tables
