import Mathlib.Data.List.Infix

/-! # Placeholders in texts

A placeholder is replaced wherever its pattern stands in a text, from the left, and one
placeholder after the other. Where the patterns are marked by an element that stands nowhere
else, the text is a template, and its placeholders are filled in as if at one time. A
replacement without separators leaves the separators of a text where they are.
-/
namespace ReleaseValidation.Placeholders
variable {α κ : Type*} [DecidableEq α]

/-! ### Replacements -/

/-- The text with the pattern replaced, after what is left of a match. -/
def replaceFrom (pat new : List α) : ℕ → List α → List α
  | _, [] => []
  | n + 1, _ :: s => replaceFrom pat new n s
  | 0, c :: s =>
    if pat <+: c :: s then new ++ replaceFrom pat new (pat.length - 1) s else c :: replaceFrom pat new 0 s

def replace (pat new s : List α) : List α := replaceFrom pat new 0 s

/-- One replacement after the other. -/
def substitute (vars : List (List α × List α)) (s : List α) : List α :=
  vars.foldl (fun t v => replace v.1 v.2 t) s

section Replacing
variable {pat new s x : List α}

@[simp] theorem replace_nil : replace pat new [] = [] := rfl

theorem replaceFrom_skip (xs s : List α) : replaceFrom pat new xs.length (xs ++ s) = replace pat new s := by
  induction xs with
  | nil => rfl
  | cons x xs ih => exact ih

theorem replace_cons {c : α} (h : ¬ pat <+: c :: s) : replace pat new (c :: s) = c :: replace pat new s := by
  simp only [replace, replaceFrom, if_neg h]

theorem replace_match (hne : pat ≠ []) (s : List α) : replace pat new (pat ++ s) = new ++ replace pat new s := by
  obtain ⟨c, cs, rfl⟩ := List.exists_cons_of_ne_nil hne
  have hpre : c :: cs <+: c :: (cs ++ s) := ⟨s, rfl⟩
  have hlength : (c :: cs).length - 1 = cs.length := rfl
  rw [List.cons_append, replace, replaceFrom, if_pos hpre, hlength, replaceFrom_skip]

/-- No pattern starts in a text without the first element of the pattern. -/
theorem replace_append {o : α} {body : List α} (hpat : pat = o :: body) (hx : o ∉ x) (s : List α) :
    replace pat new (x ++ s) = x ++ replace pat new s := by
  induction x with
  | nil => rfl
  | cons c x ih =>
    have hnot : ¬ pat <+: c :: (x ++ s) := by
      rw [hpat, List.cons_prefix_cons]
      rintro ⟨rfl, -⟩
      exact hx List.mem_cons_self
    rw [List.cons_append, replace_cons hnot, ih fun h => hx (List.mem_cons_of_mem _ h), List.cons_append]

omit [DecidableEq α] in
/-- A pattern that does not have the element matches on one side of it. -/
theorem prefix_append_cons_iff {b : α} (hb : b ∉ pat) : pat <+: x ++ b :: s ↔ pat <+: x := by
  constructor
  · intro h
    by_cases hle : pat.length ≤ x.length
    · exact List.prefix_of_prefix_length_le h (List.prefix_append _ _) hle
    · have hstop : x ++ [b] <+: pat := by
        refine List.prefix_of_prefix_length_le ⟨s, by simp⟩ h ?_
        rw [List.length_append, List.length_singleton]
        omega
      exact absurd (hstop.subset (List.mem_append_right _ List.mem_cons_self)) hb
  · exact fun h => h.trans (List.prefix_append _ _)

theorem replaceFrom_append_cons {b : α} (hne : pat ≠ []) (hb : b ∉ pat) (s : List α) {n : ℕ} (hn : n ≤ x.length) :
    replaceFrom pat new n (x ++ b :: s) = replaceFrom pat new n x ++ b :: replace pat new s := by
  induction x generalizing n with
  | nil =>
    obtain rfl : n = 0 := Nat.le_zero.mp hn
    have hnot : ¬ pat <+: b :: s := fun h =>
      hne (List.prefix_nil.mp ((prefix_append_cons_iff (x := []) (s := s) hb).mp h))
    exact replace_cons hnot
  | cons c x ih =>
    cases n with
    | succ n => exact ih (Nat.le_of_succ_le_succ hn)
    | zero =>
      have hiff : pat <+: c :: (x ++ b :: s) ↔ pat <+: c :: x := prefix_append_cons_iff (x := c :: x) hb
      rw [List.cons_append, replaceFrom, replaceFrom]
      by_cases hpat : pat <+: c :: x
      · have hlength := hpat.length_le
        rw [List.length_cons] at hlength
        rw [if_pos (hiff.mpr hpat), if_pos hpat, ih (by omega), List.append_assoc]
      · rw [if_neg fun h => hpat (hiff.mp h), if_neg hpat, ih (Nat.zero_le _), List.cons_append]

theorem mem_replaceFrom {c : α} {n : ℕ} (h : c ∈ replaceFrom pat new n s) : c ∈ new ∨ c ∈ s := by
  induction s generalizing n with
  | nil => cases h
  | cons d s ih =>
    cases n with
    | succ n => exact (ih h).imp_right (List.mem_cons_of_mem _)
    | zero =>
      rw [replaceFrom] at h
      split at h
      next =>
        rcases List.mem_append.mp h with h | h
        · exact Or.inl h
        · exact (ih h).imp_right (List.mem_cons_of_mem _)
      next =>
        rcases List.mem_cons.mp h with rfl | h
        · exact Or.inr List.mem_cons_self
        · exact (ih h).imp_right (List.mem_cons_of_mem _)

end Replacing

/-! ### Replacements and separators -/

section Separated
variable {p : α → Bool} {pat new : List α}

/-- A replacement in a text is one in each of the pieces between its separators. -/
theorem splitOnP_replace (hne : pat ≠ []) (hpat : ∀ c ∈ pat, p c = false) (hnew : ∀ c ∈ new, p c = false) (s : List α) :
    (replace pat new s).splitOnP p = (s.splitOnP p).map (replace pat new) := by
  have hgen : ∀ x : List α, (∀ c ∈ x, p c = false) →
      (replace pat new (x ++ s)).splitOnP p = ((x ++ s).splitOnP p).map (replace pat new) := by
    induction s with
    | nil =>
      intro x hx
      have hreplaced : ∀ c ∈ replace pat new x, p c = false :=
        fun c hc => (mem_replaceFrom hc).elim (hnew c) (hx c)
      rw [List.append_nil, List.splitOnP_eq_singleton hreplaced, List.splitOnP_eq_singleton hx, List.map_singleton]
    | cons b s ih =>
      intro x hx
      cases hb : p b with
      | true =>
        have hfree : b ∉ pat := fun hmem => by
          rw [hpat b hmem] at hb
          cases hb
        have hreplaced : ∀ c ∈ replace pat new x, p c = false :=
          fun c hc => (mem_replaceFrom hc).elim (hnew c) (hx c)
        have happend : replace pat new (x ++ b :: s) = replace pat new x ++ b :: replace pat new s :=
          replaceFrom_append_cons hne hfree s (Nat.zero_le _)
        have hrest : (replace pat new s).splitOnP p = (s.splitOnP p).map (replace pat new) :=
          ih [] fun _ hc => absurd hc List.not_mem_nil
        rw [happend, List.splitOnP_append_cons_of_forall_mem hreplaced b hb,
          List.splitOnP_append_cons_of_forall_mem hx b hb, hrest, List.map_cons]
      | false =>
        have hlonger : ∀ c ∈ x ++ [b], p c = false := by
          intro c hc
          rcases List.mem_append.mp hc with hc | hc
          · exact hx c hc
          · rw [List.mem_singleton.mp hc]
            exact hb
        have happend : x ++ b :: s = x ++ [b] ++ s := by simp
        rw [happend]
        exact ih _ hlonger
  exact hgen [] fun _ hc => absurd hc List.not_mem_nil

@[simp] theorem substitute_nil (vars : List (List α × List α)) : substitute vars [] = [] := by
  induction vars with
  | nil => rfl
  | cons v vars ih => exact ih

theorem splitOnP_substitute {vars : List (List α × List α)} (hvars : ∀ v ∈ vars, v.1 ≠ [] ∧
    (∀ c ∈ v.1, p c = false) ∧ ∀ c ∈ v.2, p c = false) (s : List α) :
    (substitute vars s).splitOnP p = (s.splitOnP p).map (substitute vars) := by
  induction vars generalizing s with
  | nil => exact (List.map_id _).symm
  | cons v vars ih =>
    obtain ⟨hne, hpat, hnew⟩ := hvars v List.mem_cons_self
    have hrest := ih (fun w hw => hvars w (List.mem_cons_of_mem _ hw)) (replace v.1 v.2 s)
    have hcomp : substitute (v :: vars) = substitute vars ∘ replace v.1 v.2 := rfl
    rw [hcomp, Function.comp_apply, hrest, splitOnP_replace hne hpat hnew, List.map_map]

/-- `s.split()`: the pieces between separators that are not empty. -/
def words (p : α → Bool) (s : List α) : List (List α) := (s.splitOnP p).filter (· ≠ [])

/-- To replace in a text and then split it is to split it first and then to replace in each of its words,
of which those that become empty are lost. -/
theorem words_substitute {vars : List (List α × List α)} (hvars : ∀ v ∈ vars, v.1 ≠ [] ∧
    (∀ c ∈ v.1, p c = false) ∧ ∀ c ∈ v.2, p c = false) (s : List α) :
    words p (substitute vars s) = ((words p s).map (substitute vars)).filter (· ≠ []) := by
  rw [words, words, splitOnP_substitute hvars]
  generalize s.splitOnP p = pieces
  induction pieces with
  | nil => rfl
  | cons x pieces ih =>
    by_cases hx : x = []
    · subst hx
      simpa using ih
    · by_cases hsub : substitute vars x = []
      · simpa [hx, hsub] using ih
      · simpa [hx, hsub] using ih

end Separated

/-! ### Templates -/

/-- A text with placeholders. -/
abbrev Template (α κ : Type*) := List (List α ⊕ κ)

/-- The template with a text in the place of each placeholder. -/
def fill (f : κ → List α) (t : Template α κ) : List α := t.flatMap (Sum.elim id f)

/-- Each pattern starts with the mark, which stands nowhere else in it, and none is the beginning of another. -/
structure Marked (o : α) (pat : κ → List α) : Prop where
  starts : ∀ k, ∃ body, pat k = o :: body ∧ o ∉ body
  apart : ∀ j k s, pat j <+: pat k ++ s → j = k

/-- The texts of the template do not have the mark. -/
def Unmarked (o : α) (t : Template α κ) : Prop := ∀ x : List α, .inl x ∈ t → o ∉ x

section Templates
variable {o : α} {pat : κ → List α} {j : κ} {new : List α} {f g : κ → List α}

omit [DecidableEq α] in
theorem fill_cons (f : κ → List α) (x : List α ⊕ κ) (t : Template α κ) :
    fill f (x :: t) = Sum.elim id f x ++ fill f t := by
  simp [fill]

omit [DecidableEq α] in
theorem fill_congr {t : Template α κ} (h : ∀ k, .inr k ∈ t → f k = g k) : fill f t = fill g t := by
  induction t with
  | nil => rfl
  | cons x t ih =>
    rw [fill_cons, fill_cons, ih fun k hk => h k (List.mem_cons_of_mem _ hk)]
    cases x with
    | inl x => rfl
    | inr k => exact congrArg (· ++ fill g t) (h k List.mem_cons_self)

/-- To replace a pattern in a filled template is to fill the template otherwise. -/
theorem replace_fill (hmarked : Marked o pat)
    (hfg : ∀ k, o ∉ f k ∧ g k = f k ∨ f k = pat k ∧ k ≠ j ∧ g k = pat k ∨ k = j ∧ f k = pat j ∧ g k = new)
    {t : Template α κ} (ht : Unmarked o t) : replace (pat j) new (fill f t) = fill g t := by
  obtain ⟨body, hbody, hfree⟩ := hmarked.starts j
  induction t with
  | nil => rfl
  | cons x t ih =>
    have hrest := ih fun y hy => ht y (List.mem_cons_of_mem _ hy)
    rw [fill_cons, fill_cons]
    cases x with
    | inl x =>
      exact (replace_append hbody (ht x List.mem_cons_self) _).trans (congrArg (x ++ ·) hrest)
    | inr k =>
      simp only [Sum.elim_inr]
      rcases hfg k with ⟨hplain, hg⟩ | ⟨hf, hk, hg⟩ | ⟨rfl, hf, hg⟩
      · rw [replace_append hbody hplain, hrest, hg]
      · obtain ⟨body', hbody', hfree'⟩ := hmarked.starts k
        have hnot : ¬ pat j <+: o :: (body' ++ fill f t) := by
          intro h
          rw [← List.cons_append, ← hbody'] at h
          exact hk (hmarked.apart j k _ h).symm
        rw [hf, hg, hbody', List.cons_append, replace_cons hnot, replace_append hbody hfree', hrest, List.cons_append]
      · have hne : pat k ≠ [] := by simp [hbody]
        rw [hf, hg, replace_match hne, hrest]

/-- One replacement after the other fills in all placeholders of a template as if at one time. -/
theorem substitute_fill [DecidableEq κ] (hmarked : Marked o pat) {val : κ → List α} (hval : ∀ k, o ∉ val k)
    {t : Template α κ} (ht : Unmarked o t) (keys done : List κ) :
    substitute (keys.map fun k => (pat k, val k)) (fill (fun k => if k ∈ done then val k else pat k) t) =
      fill (fun k => if k ∈ done ++ keys then val k else pat k) t := by
  induction keys generalizing done with
  | nil => simp [substitute]
  | cons j keys ih =>
    have hstep : replace (pat j) (val j) (fill (fun k => if k ∈ done then val k else pat k) t) =
        fill (fun k => if k ∈ done ++ [j] then val k else pat k) t := by
      refine replace_fill hmarked (fun k => ?_) ht
      by_cases hk : k ∈ done
      · exact Or.inl (by simp [hk, hval k])
      · by_cases hkj : k = j
        · exact Or.inr (Or.inr (by simp [hkj, hkj ▸ hk]))
        · exact Or.inr (Or.inl (by simp [hk, hkj]))
    have hnext := ih (done ++ [j])
    rw [List.append_assoc, List.singleton_append] at hnext
    rw [← hnext, ← hstep]
    rfl

end Templates
end ReleaseValidation.Placeholders
