import Mathlib.Data.List.Basic
import ReleaseValidation.Store.Json

/-! # Positions in a JSON value

A position leads from a value through the members of objects and the elements of lists to one
of its parts. Two values have the same shape when their objects stand at the same positions and
have the same keys.
-/
namespace ReleaseValidation.Store

theorem lookup_cons_ite {α : Type} (k k' : String) (a : α) (fields : List (String × α)) :
    ((k', a) :: fields).lookup k = if k = k' then some a else fields.lookup k := by
  rw [List.lookup_cons]
  by_cases hk : k = k'
  · simp [hk]
  · simp [hk, beq_false_of_ne hk]

theorem lookup_setField (k k' : String) (v : Json) (fields : List (String × Json)) :
    (setField k v fields).lookup k' = if k' = k then some v else fields.lookup k' := by
  induction fields with
  | nil => exact lookup_cons_ite k' k v []
  | cons kv fields ih =>
    obtain ⟨k₀, v₀⟩ := kv
    rw [setField, lookup_cons_ite]
    split
    next h =>
      rw [h, lookup_cons_ite]
      split <;> rfl
    next h =>
      rw [lookup_cons_ite, ih]
      by_cases hk : k' = k₀
      · have hne : k' ≠ k := fun he => h (hk.symm.trans he)
        rw [if_pos hk, if_neg hne, if_pos hk]
      · rw [if_neg hk, if_neg hk]

namespace Json

/-- The name of a part of an object or of a list. -/
inductive Part
  | key (k : String)
  | index (i : ℕ)
  deriving DecidableEq, Repr

def child : Json → Part → Option Json
  | obj fields, .key k => fields.lookup k
  | arr items, .index i => items[i]?
  | _, _ => none

/-- What is found at a position. -/
def locate : Json → List Part → Option Json
  | j, [] => some j
  | j, p :: ps => (j.child p).bind fun c => c.locate ps

def SameKeys (xs ys : List (String × Json)) : Prop := ∀ k, (xs.lookup k).isSome = (ys.lookup k).isSome

/-- Every object in `after` stands where `before` has one with the same keys. -/
def Shaped (before after : Json) : Prop :=
  ∀ ps fields, after.locate ps = some (obj fields) → ∃ old, before.locate ps = some (obj old) ∧ SameKeys old fields

theorem locate_cons (j : Json) (p : Part) (ps : List Part) :
    j.locate (p :: ps) = (j.child p).bind fun c => c.locate ps := rfl

theorem locate_append (j : Json) (ps qs : List Part) :
    j.locate (ps ++ qs) = (j.locate ps).bind fun c => c.locate qs := by
  induction ps generalizing j with
  | nil => rfl
  | cons p ps ih =>
    rw [List.cons_append, locate_cons, locate_cons]
    cases j.child p with
    | none => rfl
    | some c => exact ih c

theorem Shaped.refl (j : Json) : Shaped j j := fun _ fields h => ⟨fields, h, fun _ => rfl⟩

theorem Shaped.locate {before after b a : Json} (h : Shaped before after) {ps : List Part}
    (hb : before.locate ps = some b) (ha : after.locate ps = some a) : Shaped b a := by
  intro qs fields hqs
  have hafter : after.locate (ps ++ qs) = some (obj fields) := by rw [locate_append, ha, Option.bind_some, hqs]
  obtain ⟨old, hold, hkeys⟩ := h _ _ hafter
  rw [locate_append, hb, Option.bind_some] at hold
  exact ⟨old, hold, hkeys⟩

end Json
end ReleaseValidation.Store
