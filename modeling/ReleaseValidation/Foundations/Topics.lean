import Mathlib.Data.List.Nodup
import Mathlib.Logic.Function.Basic

/-! # Subscribers of topics

Each topic has a bucket with its subscribers, and may have none while it has no subscriber. The buckets
hold a registry, which says under what topic a subscriber is registered, if each of them
has the subscribers of its topic, once.
-/
namespace ReleaseValidation.Topics
variable {κ α : Type*}

abbrev Buckets (κ α : Type*) := κ → Option (List α)
abbrev Registry (κ α : Type*) := α → Option κ

def bucket (b : Buckets κ α) (k : κ) : List α := (b k).getD []

/-- One bucket, which is empty. -/
def single [DecidableEq κ] (kept : κ) : Buckets κ α := fun k => if k = kept then some [] else none

def add [DecidableEq κ] (b : Buckets κ α) (k : κ) (x : α) : Buckets κ α :=
  Function.update b k (some (bucket b k ++ [x]))

/-- The bucket goes when it is empty, except that of the topic that is kept. -/
def remove [DecidableEq κ] [DecidableEq α] (kept : κ) (b : Buckets κ α) (k : κ) (x : α) : Buckets κ α :=
  let rest := (bucket b k).erase x
  Function.update b k (if k ≠ kept ∧ rest = [] then none else (b k).map fun _ => rest)

/-- Every one of the list is taken out of every bucket. -/
def prune [DecidableEq α] (b : Buckets κ α) (xs : List α) : Buckets κ α := fun k => (b k).map (·.diff xs)

/-- The list, with what it lacks of the other at its end. -/
def join [DecidableEq α] (xs ys : List α) : List α := ys.foldl (fun ts y => if y ∈ ts then ts else ts ++ [y]) xs

structure Registers (b : Buckets κ α) (r : Registry κ α) : Prop where
  nodup : ∀ k, (bucket b k).Nodup
  mem_iff : ∀ k x, x ∈ bucket b k ↔ r x = some k

section Join
variable [DecidableEq α] {xs ys : List α} {x : α}

theorem mem_join : x ∈ join xs ys ↔ x ∈ xs ∨ x ∈ ys := by
  unfold join
  induction ys generalizing xs with
  | nil => simp
  | cons y ys ih =>
    rw [List.foldl_cons, ih]
    split
    next hy =>
      have hmem : x = y → x ∈ xs := fun h => h ▸ hy
      rw [List.mem_cons]
      tauto
    next => simp [or_assoc]

theorem nodup_join (h : xs.Nodup) : (join xs ys).Nodup := by
  unfold join
  induction ys generalizing xs with
  | nil => exact h
  | cons y ys ih =>
    rw [List.foldl_cons]
    apply ih
    split
    next => exact h
    next hy => exact List.nodup_append.mpr ⟨h, List.nodup_singleton y, fun a ha c hc => by
      rw [List.mem_singleton.mp hc]
      exact fun heq => hy (heq ▸ ha)⟩

end Join

variable [DecidableEq κ] {b : Buckets κ α} {r : Registry κ α} {k k' : κ} {x : α}

theorem bucket_single (kept k : κ) : bucket (single kept : Buckets κ α) k = [] := by
  unfold bucket single
  split <;> rfl

theorem bucket_add : bucket (add b k x) k' = if k' = k then bucket b k ++ [x] else bucket b k' := by
  unfold bucket add
  by_cases h : k' = k
  · subst h
    rw [Function.update_self, if_pos rfl]
    rfl
  · rw [Function.update_of_ne h, if_neg h]

theorem registers_single (kept : κ) : Registers (single kept : Buckets κ α) fun _ => none where
  nodup k := by
    rw [bucket_single]
    exact .nil
  mem_iff k x := by simp [bucket_single]

section Changes
variable [DecidableEq α]

theorem bucket_remove (kept : κ) :
    bucket (remove kept b k x) k' = if k' = k then (bucket b k).erase x else bucket b k' := by
  by_cases h : k' = k
  · subst h
    rw [if_pos rfl, remove]
    by_cases hgone : k' ≠ kept ∧ (bucket b k').erase x = []
    · rw [bucket, Function.update_self, if_pos hgone, hgone.2]
      rfl
    · rw [bucket, Function.update_self, if_neg hgone]
      cases hb : b k' with
      | none => simp [bucket, hb]
      | some xs => rfl
  · rw [bucket, remove, Function.update_of_ne h, if_neg h, bucket]

omit [DecidableEq κ] in
theorem bucket_prune (xs : List α) : bucket (prune b xs) k = (bucket b k).diff xs := by
  unfold bucket prune
  cases b k with
  | none => simp
  | some ys => rfl

theorem Registers.add (h : Registers b r) (hx : r x = none) (k : κ) :
    Registers (add b k x) (Function.update r x (some k)) where
  nodup k' := by
    rw [bucket_add]
    split
    next =>
      have hout : x ∉ bucket b k := fun hmem => by
        rw [(h.mem_iff k x).mp hmem] at hx
        cases hx
      exact List.nodup_append.mpr ⟨h.nodup k, List.nodup_singleton x, fun y hy z hz => by
        rw [List.mem_singleton.mp hz]
        exact fun heq => hout (heq ▸ hy)⟩
    next => exact h.nodup k'
  mem_iff k' y := by
    rw [bucket_add]
    by_cases hy : y = x
    · subst hy
      rw [Function.update_self, Option.some_inj]
      split
      next hk => simp [hk]
      next hk =>
        rw [h.mem_iff, hx]
        simpa using Ne.symm hk
    · rw [Function.update_of_ne hy, ← h.mem_iff]
      split
      next hk => simp [hk, hy]
      next => rfl

theorem Registers.remove (h : Registers b r) (hx : ∀ k' ∈ r x, k' = k) (kept : κ) :
    Registers (remove kept b k x) (Function.update r x none) where
  nodup k' := by
    rw [bucket_remove]
    split
    next => exact (h.nodup k).erase x
    next => exact h.nodup k'
  mem_iff k' y := by
    rw [bucket_remove]
    by_cases hy : y = x
    · subst hy
      rw [Function.update_self]
      split
      next => simp [(h.nodup k).mem_erase_iff]
      next hk =>
        rw [h.mem_iff]
        exact iff_of_false (fun hr => hk (hx k' hr)) nofun
    · rw [Function.update_of_ne hy, ← h.mem_iff]
      split
      next hk => rw [(h.nodup k).mem_erase_iff, hk, and_iff_right hy]
      next => rfl

omit [DecidableEq κ] in
theorem Registers.prune (h : Registers b r) (xs : List α) :
    Registers (prune b xs) fun x => if x ∈ xs then none else r x where
  nodup k := by
    rw [bucket_prune]
    exact (h.nodup k).diff
  mem_iff k x := by
    rw [bucket_prune, (h.nodup k).mem_sdiff_iff, h.mem_iff]
    by_cases hx : x ∈ xs <;> simp [hx]

end Changes

end ReleaseValidation.Topics
