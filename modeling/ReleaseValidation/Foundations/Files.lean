import Mathlib.Data.List.Basic
import Mathlib.Logic.Function.Basic

/-! # The files of a directory

A name leads to a node, and the node holds the bytes. A node stays open for those
who have opened it when its name is given to another node, so what is written
through an old descriptor may or may not be what the name leads to.
-/
namespace ReleaseValidation.Files

/-- Every node has at most one name, and the nodes that have one were created before `next`. -/
structure Dir (ν β : Type) where
  entries : ν → Option ℕ
  contents : ℕ → List β
  next : ℕ
  fresh : ∀ p i, entries p = some i → i < next
  linked : ∀ p q i, entries p = some i → entries q = some i → p = q

/-- Writing `bs` at an offset; a gap behind the end is filled with zero bytes. -/
def overwrite {β : Type} [Inhabited β] (l : List β) (off : ℕ) (bs : List β) : List β :=
  l.take off ++ List.replicate (off - l.length) default ++ bs ++ l.drop (off + bs.length)

namespace Dir
variable {ν β : Type}

def empty : Dir ν β where
  entries _ := none
  contents _ := []
  next := 0
  fresh _ _ h := by cases h
  linked _ _ _ h := by cases h

/-- What the name leads to. -/
def file (d : Dir ν β) (p : ν) : Option (List β) := (d.entries p).map d.contents

/-- The node that opening `p` for writing leads to. -/
def node (d : Dir ν β) (p : ν) : ℕ := (d.entries p).getD d.next

variable {d : Dir ν β} {p q r : ν} {i j : ℕ}

theorem file_eq_some {l : List β} : d.file p = some l ↔ ∃ i, d.entries p = some i ∧ d.contents i = l :=
  Option.map_eq_some_iff

theorem node_of_entries (h : d.entries p = some i) : d.node p = i := by rw [node, h]; rfl

/-- The node that is opened has no other name. -/
theorem eq_of_entries_node (h : d.entries q = some (d.node p)) : q = p := by
  cases hp : d.entries p with
  | none =>
    have hn : d.node p = d.next := by rw [node, hp]; rfl
    have hlt := d.fresh q _ h
    omega
  | some i =>
    rw [node_of_entries hp] at h
    exact d.linked q p i h hp

section Write
variable [Inhabited β] {off n : ℕ} {bs doc : List β}

/-- A write through a descriptor of node `i`. -/
def write (d : Dir ν β) (i off : ℕ) (bs : List β) : Dir ν β :=
  { d with contents := Function.update d.contents i (overwrite (d.contents i) off bs) }

@[simp] theorem write_entries : (d.write i off bs).entries = d.entries := rfl

theorem write_contents_self : (d.write i off bs).contents i = overwrite (d.contents i) off bs :=
  Function.update_self ..

theorem write_contents (h : j ≠ i) : (d.write i off bs).contents j = d.contents j :=
  Function.update_of_ne h ..

theorem write_contents_of_entries (hi : d.entries p = some i) (hj : d.entries q = some j) (h : q ≠ p) :
    (d.write i off bs).contents j = d.contents j := by
  apply write_contents
  intro he
  subst he
  exact h (d.linked q p j hj hi)

theorem write_file (hi : d.entries p = some i) (h : q ≠ p) : (d.write i off bs).file q = d.file q := by
  cases hq : d.entries q with
  | none => rw [file, file, write_entries, hq]; rfl
  | some j =>
    rw [file, file, write_entries, hq, Option.map_some, Option.map_some, write_contents_of_entries hi hq h]

/-- The next bytes of a text, written behind those that are already there. -/
theorem overwrite_take (hoff : off ≤ doc.length) :
    overwrite (doc.take off) off ((doc.drop off).take n) = doc.take (off + n) := by
  have hlen : (doc.take off).length = off := List.length_take_of_le hoff
  have hgap : off - (doc.take off).length = 0 := by omega
  have hrest : (doc.take off).drop (off + ((doc.drop off).take n).length) = [] :=
    List.drop_eq_nil_of_le (by omega)
  have htake : (doc.take off).take off = doc.take off := List.take_of_length_le (by omega)
  rw [overwrite, hgap, hrest, htake, List.replicate_zero, List.append_nil, List.append_nil, List.take_add]

theorem write_take (hi : d.contents i = doc.take off) (hoff : off ≤ doc.length) :
    (d.write i off ((doc.drop off).take n)).contents i = doc.take (off + n) := by
  rw [write_contents_self, hi, overwrite_take hoff]

end Write

variable [DecidableEq ν]

/-- `open(p, "w")`: the file is created, or emptied if it exists. -/
def openTrunc (d : Dir ν β) (p : ν) : Dir ν β where
  entries := Function.update d.entries p (some (d.node p))
  contents := Function.update d.contents (d.node p) []
  next := max d.next (d.node p + 1)
  fresh q i h := by
    by_cases hq : q = p
    · subst hq
      rw [Function.update_self] at h
      cases h
      omega
    · rw [Function.update_of_ne hq] at h
      have := d.fresh q i h
      omega
  linked q r i hq hr := by
    by_cases hqp : q = p <;> by_cases hrp : r = p
    · rw [hqp, hrp]
    · subst hqp
      rw [Function.update_self] at hq
      rw [Function.update_of_ne hrp, ← hq] at hr
      exact (eq_of_entries_node hr).symm
    · subst hrp
      rw [Function.update_self] at hr
      rw [Function.update_of_ne hqp, ← hr] at hq
      exact eq_of_entries_node hq
    · rw [Function.update_of_ne hqp] at hq
      rw [Function.update_of_ne hrp] at hr
      exact d.linked q r i hq hr

/-- The node of `p` gets the name `q` in place of its own. -/
def relink (d : Dir ν β) (p q : ν) : Dir ν β where
  entries := Function.update (Function.update d.entries p none) q (d.entries p)
  contents := d.contents
  next := d.next
  fresh r i h := by
    by_cases hq : r = q
    · subst hq
      rw [Function.update_self] at h
      exact d.fresh p i h
    · rw [Function.update_of_ne hq] at h
      by_cases hp : r = p
      · subst hp
        rw [Function.update_self] at h
        cases h
      · rw [Function.update_of_ne hp] at h
        exact d.fresh r i h
  linked r r' i h h' := by
    -- a name other than `q` that still leads somewhere is not `p`, and leads where it led
    have hold : ∀ x, x ≠ q → Function.update (Function.update d.entries p none) q (d.entries p) x = some i →
        x ≠ p ∧ d.entries x = some i := by
      intro x hxq hx
      rw [Function.update_of_ne hxq] at hx
      by_cases hxp : x = p
      · subst hxp
        rw [Function.update_self] at hx
        cases hx
      · rw [Function.update_of_ne hxp] at hx
        exact ⟨hxp, hx⟩
    by_cases hr : r = q <;> by_cases hr' : r' = q
    · rw [hr, hr']
    · subst hr
      rw [Function.update_self] at h
      obtain ⟨hne, h'⟩ := hold r' hr' h'
      exact absurd (d.linked r' p i h' h) hne
    · subst hr'
      rw [Function.update_self] at h'
      obtain ⟨hne, h⟩ := hold r hr h
      exact absurd (d.linked r p i h h') hne
    · exact d.linked r r' i (hold r hr h).2 (hold r' hr' h').2

/-- `os.replace(p, q)`, which fails when there is no `p`. -/
def replace (d : Dir ν β) (p q : ν) : Option (Dir ν β) :=
  if (d.entries p).isSome then some (d.relink p q) else none

@[simp] theorem openTrunc_entries_self : (d.openTrunc p).entries p = some (d.node p) :=
  Function.update_self ..

@[simp] theorem openTrunc_contents_self : (d.openTrunc p).contents (d.node p) = [] :=
  Function.update_self ..

theorem openTrunc_entries (h : q ≠ p) : (d.openTrunc p).entries q = d.entries q :=
  Function.update_of_ne h ..

theorem openTrunc_contents (h : d.entries q = some i) (hq : q ≠ p) :
    (d.openTrunc p).contents i = d.contents i := by
  refine Function.update_of_ne ?_ ..
  intro hi
  subst hi
  exact hq (eq_of_entries_node h)

theorem openTrunc_file (h : q ≠ p) : (d.openTrunc p).file q = d.file q := by
  cases hq : d.entries q with
  | none => rw [file, file, openTrunc_entries h, hq]; rfl
  | some i =>
    rw [file, file, openTrunc_entries h, hq, Option.map_some, Option.map_some, openTrunc_contents hq h]

theorem replace_eq_some {d' : Dir ν β} :
    d.replace p q = some d' ↔ (d.entries p).isSome ∧ d' = d.relink p q := by
  unfold replace
  split
  next h => simp [h, eq_comm]
  next h => simp [h]

@[simp] theorem relink_entries_self : (d.relink p q).entries q = d.entries p := Function.update_self ..

@[simp] theorem relink_contents : (d.relink p q).contents = d.contents := rfl

theorem relink_entries (hp : r ≠ p) (hq : r ≠ q) : (d.relink p q).entries r = d.entries r := by
  change Function.update _ q _ r = _
  rw [Function.update_of_ne hq, Function.update_of_ne hp]

theorem relink_file_self : (d.relink p q).file q = d.file p := by
  rw [file, file, relink_entries_self, relink_contents]

theorem relink_file (hp : r ≠ p) (hq : r ≠ q) : (d.relink p q).file r = d.file r := by
  rw [file, file, relink_entries hp hq, relink_contents]

end Dir
end ReleaseValidation.Files
