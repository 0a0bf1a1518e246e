import Mathlib.Logic.Function.Basic
import ReleaseValidation.Foundations.Runs

/-! # Tables whose rows refer to rows of other tables

A database keeps the rows of several tables by key, and a row names the rows it refers to.
A write makes a new row out of the one under its key, if there is one, and is refused when
the new row refers to something that is not there, unless the old row did so already.
Rows are never deleted, so a list of writes goes through when each one comes after the
writes of the rows it needs.
-/
namespace ReleaseValidation.References
open Runs

structure Schema (τ κ : Type) where
  Row : τ → Type
  refs : (t : τ) → Row t → List (τ × κ)

variable {τ κ : Type}

abbrev Schema.Db (S : Schema τ κ) := (t : τ) → κ → Option (S.Row t)

/-- `row old` is what the write makes of the row under its key, `none` if it leaves it alone. -/
structure Schema.Write (S : Schema τ κ) where
  table : τ
  key : κ
  row : Option (S.Row table) → Option (S.Row table)

namespace Schema
variable {S : Schema τ κ}

def Has (db : S.Db) (p : τ × κ) : Prop := (db p.1 p.2).isSome = true

instance (db : S.Db) (p : τ × κ) : Decidable (Has db p) := inferInstanceAs (Decidable (_ = true))

/-- What the row refers to, if there is one. -/
def refs? (S : Schema τ κ) (t : τ) (old : Option (S.Row t)) : List (τ × κ) := (old.map (S.refs t)).getD []

section Writes
variable [DecidableEq τ] [DecidableEq κ]

def set (db : S.Db) (t : τ) (k : κ) (r : S.Row t) : S.Db :=
  Function.update db t (Function.update (db t) k (some r))

theorem set_self (db : S.Db) (t : τ) (k : κ) (r : S.Row t) : set db t k r t k = some r := by
  simp [set]

theorem set_of_ne {db : S.Db} {t t' : τ} {k k' : κ} {r : S.Row t} (h : (t', k') ≠ (t, k)) :
    set db t k r t' k' = db t' k' := by
  unfold set
  by_cases ht : t' = t
  · subst ht
    have hk : k' ≠ k := fun hk => h (by rw [hk])
    simp [hk]
  · simp [ht]

/-- The write, unless it violates a reference. -/
def Write.run (db : S.Db) (w : S.Write) : Option S.Db :=
  match w.row (db w.table w.key) with
  | none => some db
  | some r =>
    if ∀ p ∈ S.refs w.table r, p ∈ S.refs? w.table (db w.table w.key) ∨ Has db p then some (set db w.table w.key r)
    else none

/-- No row refers to anything but what the write names or its row referred to before. -/
def Write.Uses (w : S.Write) (ps : List (τ × κ)) : Prop :=
  ∀ old r, w.row old = some r → ∀ p ∈ S.refs w.table r, p ∈ ps ∨ p ∈ S.refs? w.table old

/-- The write leaves a row under its key in any case. -/
def Write.Inserts (w : S.Write) : Prop := (w.row none).isSome = true

theorem Write.run_cases {db db' : S.Db} {w : S.Write} (h : w.run db = some db') :
    w.row (db w.table w.key) = none ∧ db' = db ∨
      ∃ r, w.row (db w.table w.key) = some r ∧ db' = set db w.table w.key r ∧
        ∀ p ∈ S.refs w.table r, p ∈ S.refs? w.table (db w.table w.key) ∨ Has db p := by
  unfold Write.run at h
  split at h
  next hrow => exact Or.inl ⟨hrow, (Option.some.inj h).symm⟩
  next r hrow =>
    split at h
    next hrefs => exact Or.inr ⟨r, hrow, (Option.some.inj h).symm, hrefs⟩
    next => cases h

/-- What the new row of a write refers to, when the write goes through. -/
theorem Write.run_refs {db db' : S.Db} {w : S.Write} (h : w.run db = some db') {r : S.Row w.table}
    (hr : w.row (db w.table w.key) = some r) {p : τ × κ} (hp : p ∈ S.refs w.table r) :
    p ∈ S.refs? w.table (db w.table w.key) ∨ Has db p := by
  rcases w.run_cases h with ⟨hrow, -⟩ | ⟨r', hrow, -, hrefs⟩
  · cases hrow.symm.trans hr
  · cases hrow.symm.trans hr
    exact hrefs p hp

/-- The row that a write leaves under its key. -/
theorem Write.run_row {db db' : S.Db} {w : S.Write} (h : w.run db = some db') :
    db' w.table w.key = (w.row (db w.table w.key)).or (db w.table w.key) := by
  rcases w.run_cases h with ⟨hrow, rfl⟩ | ⟨r, hrow, rfl, -⟩
  · rw [hrow, Option.none_or]
  · rw [hrow, set_self, Option.some_or]

theorem Write.run_frame {db db' : S.Db} {w : S.Write} (h : w.run db = some db') {t : τ} {k : κ}
    (hne : (t, k) ≠ (w.table, w.key)) : db' t k = db t k := by
  rcases w.run_cases h with ⟨-, rfl⟩ | ⟨r, -, rfl, -⟩
  · rfl
  · exact set_of_ne hne

theorem exec_frame {db db' : S.Db} {ws : List S.Write} (h : exec Write.run db ws = some db') {t : τ} {k : κ}
    (hws : ∀ w ∈ ws, (t, k) ≠ (w.table, w.key)) : db' t k = db t k := by
  induction ws generalizing db with
  | nil =>
    cases h
    rfl
  | cons w ws ih =>
    obtain ⟨db₁, h₁, h⟩ := Option.bind_eq_some_iff.mp h
    rw [ih h fun v hv => hws v (List.mem_cons_of_mem _ hv)]
    exact w.run_frame h₁ (hws w List.mem_cons_self)

/-- The row of a key that one write of the list is for. -/
theorem exec_row {db db' : S.Db} {pre post : List S.Write} {w : S.Write}
    (h : exec Write.run db (pre ++ w :: post) = some db') (hpre : ∀ v ∈ pre, (w.table, w.key) ≠ (v.table, v.key))
    (hpost : ∀ v ∈ post, (w.table, w.key) ≠ (v.table, v.key)) :
    db' w.table w.key = (w.row (db w.table w.key)).or (db w.table w.key) := by
  obtain ⟨db₁, h₁, h⟩ := exec_append_iff.mp h
  obtain ⟨db₂, h₂, h⟩ := Option.bind_eq_some_iff.mp h
  rw [exec_frame h hpost, w.run_row h₂, exec_frame h₁ hpre]

theorem Write.run_of_uses {db : S.Db} {w : S.Write} {ps : List (τ × κ)} (huses : w.Uses ps)
    (hhas : ∀ p ∈ ps, Has db p) : ∃ db', w.run db = some db' := by
  unfold Write.run
  split
  next => exact ⟨db, rfl⟩
  next r hrow =>
    rw [if_pos]
    · exact ⟨_, rfl⟩
    · intro p hp
      rcases huses _ r hrow p hp with hp | hp
      · exact Or.inr (hhas p hp)
      · exact Or.inl hp

theorem has_set {db : S.Db} {t : τ} {k : κ} {r : S.Row t} {p : τ × κ} :
    Has (set db t k r) p ↔ p = (t, k) ∨ Has db p := by
  by_cases hp : p = (t, k)
  · subst hp
    simp [Has, set_self]
  · simp [Has, set_of_ne hp, hp]

/-- Rows stay. -/
theorem Write.run_has {db db' : S.Db} {w : S.Write} (h : w.run db = some db') {p : τ × κ} (hp : Has db p) :
    Has db' p := by
  rcases w.run_cases h with ⟨-, rfl⟩ | ⟨r, -, rfl, -⟩
  · exact hp
  · exact has_set.mpr (Or.inr hp)

theorem Write.run_inserts {db db' : S.Db} {w : S.Write} (h : w.run db = some db') (hw : w.Inserts) :
    Has db' (w.table, w.key) := by
  rcases w.run_cases h with ⟨hrow, rfl⟩ | ⟨r, -, rfl, -⟩
  · cases hold : db' w.table w.key with
    | none =>
      rw [hold] at hrow
      rw [Write.Inserts, hrow] at hw
      cases hw
    | some r => simp [Has, hold]
  · exact has_set.mpr (Or.inl rfl)

theorem exec_has {db db' : S.Db} {ws : List S.Write} (h : exec Write.run db ws = some db') {p : τ × κ}
    (hp : Has db p) : Has db' p :=
  exec_invariant (I := fun u => Has u p) (fun _ w _ hu hw => w.run_has hw hu) hp h

theorem exec_inserts {db db' : S.Db} {ws : List S.Write} (h : exec Write.run db ws = some db') {w : S.Write}
    (hmem : w ∈ ws) (hw : w.Inserts) : Has db' (w.table, w.key) := by
  obtain ⟨pre, post, rfl⟩ := List.append_of_mem hmem
  obtain ⟨db₁, -, h⟩ := exec_append_iff.mp h
  obtain ⟨db₂, h₂, h⟩ := Option.bind_eq_some_iff.mp h
  exact exec_has h (w.run_inserts h₂ hw)

/-- What a refused write refers to and does not find. -/
theorem Write.run_eq_none {db : S.Db} {w : S.Write} (h : w.run db = none) :
    ∃ r, w.row (db w.table w.key) = some r ∧
      ∃ p ∈ S.refs w.table r, p ∉ S.refs? w.table (db w.table w.key) ∧ ¬ Has db p := by
  unfold Write.run at h
  split at h
  next => cases h
  next r hrow =>
    split at h
    next => cases h
    next hrefs =>
      obtain ⟨p, hp⟩ := Classical.not_forall.mp hrefs
      obtain ⟨hmem, hno⟩ := Classical.not_imp.mp hp
      exact ⟨r, hrow, p, hmem, not_or.mp hno⟩

/-- Everything that a row refers to satisfies `Q`. -/
def Refers (db : S.Db) (Q : τ × κ → Prop) : Prop := ∀ t k r, db t k = some r → ∀ p ∈ S.refs t r, Q p

omit [DecidableEq τ] [DecidableEq κ] in
theorem Refers.of_refs? {db : S.Db} {Q : τ × κ → Prop} (h : Refers db Q) {t : τ} {k : κ} {p : τ × κ}
    (hp : p ∈ S.refs? t (db t k)) : Q p := by
  cases hrow : db t k with
  | none =>
    rw [hrow] at hp
    cases hp
  | some r =>
    rw [hrow] at hp
    exact h t k r hrow p hp

theorem Refers.set {db : S.Db} {Q : τ × κ → Prop} (h : Refers db Q) {t : τ} {k : κ} {r : S.Row t}
    (hr : ∀ p ∈ S.refs t r, Q p) : Refers (Schema.set db t k r) Q := by
  intro t' k' r' hr' p hp
  by_cases hk : (t', k') = (t, k)
  · cases hk
    rw [set_self] at hr'
    cases hr'
    exact hr p hp
  · rw [set_of_ne hk] at hr'
    exact h t' k' r' hr' p hp

/-- Every row refers to rows that are there. -/
def Consistent (db : S.Db) : Prop := Refers db (Has db)

theorem Write.run_consistent {db db' : S.Db} {w : S.Write} (hdb : Consistent db) (h : w.run db = some db') :
    Consistent db' := by
  have hmono : Refers db (Has db') := fun t k r hr p hp => w.run_has h (hdb t k r hr p hp)
  rcases w.run_cases h with ⟨-, rfl⟩ | ⟨r, -, rfl, hrefs⟩
  · exact hdb
  · refine hmono.set ?_
    intro p hp
    rcases hrefs p hp with hp | hp
    · exact hmono.of_refs? hp
    · exact w.run_has h hp

/-- The keys of the rows and what the rows refer to satisfy `Q`. -/
structure Within (Q : τ × κ → Prop) (db : S.Db) : Prop where
  keys : ∀ p, Has db p → Q p
  refs : Refers db Q

/-- The write brings in nothing that does not satisfy `Q`. -/
def Write.Stays (Q : τ × κ → Prop) (w : S.Write) : Prop :=
  Q (w.table, w.key) ∧ ∃ ps, w.Uses ps ∧ ∀ p ∈ ps, Q p

theorem Write.Stays.run {Q : τ × κ → Prop} {db db' : S.Db} {w : S.Write} (hw : w.Stays Q) (hdb : Within Q db)
    (h : w.run db = some db') : Within Q db' := by
  obtain ⟨hkey, ps, huses, hps⟩ := hw
  rcases w.run_cases h with ⟨-, rfl⟩ | ⟨r, hrow, rfl, -⟩
  · exact hdb
  · refine ⟨?_, hdb.refs.set ?_⟩
    · intro p hp
      rcases has_set.mp hp with rfl | hp
      · exact hkey
      · exact hdb.keys p hp
    · intro p hp
      rcases huses _ r hrow p hp with hp | hp
      · exact hps p hp
      · exact hdb.refs.of_refs? hp

theorem exec_within {Q : τ × κ → Prop} {db db' : S.Db} {ws : List S.Write} (hws : ∀ w ∈ ws, w.Stays Q)
    (hdb : Within Q db) (h : exec Write.run db ws = some db') : Within Q db' :=
  exec_invariant_always (fun _ _ _ hu hrun hw => hw.run hu hrun) hdb (always_of_mem hws) h

/-- Each write needs only rows that are known to be there or that an earlier write inserts, and
brings in nothing that does not satisfy `Q`. -/
inductive ParentsFirst (Q : τ × κ → Prop) : List (τ × κ) → List S.Write → Prop
  | nil (known : List (τ × κ)) : ParentsFirst Q known []
  | insert {known : List (τ × κ)} {w : S.Write} {ws : List S.Write} (hkey : Q (w.table, w.key)) (hins : w.Inserts)
      (huses : w.Uses known) (rest : ParentsFirst Q ((w.table, w.key) :: known) ws) : ParentsFirst Q known (w :: ws)
  | update {known : List (τ × κ)} {w : S.Write} {ws : List S.Write} (hkey : Q (w.table, w.key)) (huses : w.Uses known)
      (rest : ParentsFirst Q known ws) : ParentsFirst Q known (w :: ws)

section Lists
variable {Q : τ × κ → Prop} {known more : List (τ × κ)} {ws vs : List S.Write}

theorem ParentsFirst.completes (h : ParentsFirst Q known ws) {db : S.Db} (hdb : ∀ p ∈ known, Has db p) :
    ∃ db', exec Write.run db ws = some db' := by
  induction h generalizing db with
  | nil known => exact ⟨db, rfl⟩
  | @insert known w ws hkey hins huses rest ih =>
    obtain ⟨db₁, h₁⟩ := Write.run_of_uses huses hdb
    have hknown : ∀ p ∈ (w.table, w.key) :: known, Has db₁ p := by
      intro p hp
      rcases List.mem_cons.mp hp with rfl | hp
      · exact w.run_inserts h₁ hins
      · exact w.run_has h₁ (hdb p hp)
    obtain ⟨db', h'⟩ := ih hknown
    exact ⟨db', by rw [exec_cons, h₁]; exact h'⟩
  | @update known w ws hkey huses rest ih =>
    obtain ⟨db₁, h₁⟩ := Write.run_of_uses huses hdb
    have hknown : ∀ p ∈ known, Has db₁ p := fun p hp => w.run_has h₁ (hdb p hp)
    obtain ⟨db', h'⟩ := ih hknown
    exact ⟨db', by rw [exec_cons, h₁]; exact h'⟩

omit [DecidableEq τ] [DecidableEq κ] in
theorem ParentsFirst.stays (h : ParentsFirst Q known ws) (hknown : ∀ p ∈ known, Q p) : ∀ w ∈ ws, w.Stays Q := by
  induction h with
  | nil known => exact fun w hw => absurd hw List.not_mem_nil
  | @insert known w ws hkey hins huses rest ih =>
    intro v hv
    rcases List.mem_cons.mp hv with rfl | hv
    · exact ⟨hkey, known, huses, hknown⟩
    · refine ih ?_ v hv
      intro p hp
      rcases List.mem_cons.mp hp with rfl | hp
      · exact hkey
      · exact hknown p hp
  | @update known w ws hkey huses rest ih =>
    intro v hv
    rcases List.mem_cons.mp hv with rfl | hv
    · exact ⟨hkey, known, huses, hknown⟩
    · exact ih hknown v hv

omit [DecidableEq τ] [DecidableEq κ] in
theorem Write.Uses.mono {w : S.Write} (h : w.Uses known) (hsub : known ⊆ more) : w.Uses more :=
  fun old r hr p hp => (h old r hr p hp).imp_left fun hps => hsub hps

omit [DecidableEq τ] [DecidableEq κ] in
theorem ParentsFirst.mono (h : ParentsFirst Q known ws) (hsub : known ⊆ more) : ParentsFirst Q more ws := by
  induction h generalizing more with
  | nil known => exact .nil more
  | insert hkey hins huses rest ih => exact .insert hkey hins (huses.mono hsub) (ih (List.cons_subset_cons _ hsub))
  | update hkey huses rest ih => exact .update hkey (huses.mono hsub) (ih hsub)

omit [DecidableEq τ] [DecidableEq κ] in
theorem ParentsFirst.append (h : ParentsFirst Q known ws) (hv : ParentsFirst Q known vs) :
    ParentsFirst Q known (ws ++ vs) := by
  induction h with
  | nil known => exact hv
  | insert hkey hins huses rest ih => exact .insert hkey hins huses (ih (hv.mono (List.subset_cons_self _ _)))
  | update hkey huses rest ih => exact .update hkey huses (ih hv)

omit [DecidableEq τ] [DecidableEq κ] in
/-- Lists of writes that each bring their own parents can follow one another. -/
theorem ParentsFirst.flatMap {ι : Type} {f : ι → List S.Write} {is : List ι}
    (h : ∀ i ∈ is, ParentsFirst Q [] (f i)) : ParentsFirst Q [] (is.flatMap f) := by
  induction is with
  | nil => exact .nil []
  | cons i is ih =>
    rw [List.flatMap_cons]
    exact (h i List.mem_cons_self).append (ih fun j hj => h j (List.mem_cons_of_mem _ hj))

end Lists

end Writes
end Schema
end ReleaseValidation.References
