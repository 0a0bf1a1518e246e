import Mathlib.Data.List.Infix

/-! # Regular expressions with a preference among matches

An expression splits an input into a matched part and a rest, in every way it can and in
the order in which a backtracking matcher tries them: repetitions take as much as they
can first, alternatives come from left to right. A pattern searches its input from the
left and captures what the group at its end matches in the first successful way.
-/
namespace ReleaseValidation.Regexes
variable {α : Type*}

inductive Regex (α : Type*)
  | empty
  | one (p : α → Bool)
  | many (p : α → Bool)
  | seq (a b : Regex α)
  | alt (a b : Regex α)

/-- The ways to split off a prefix whose elements satisfy `p`, the longest one first. -/
def spans (p : α → Bool) : List α → List (List α × List α)
  | [] => [([], [])]
  | c :: s => if p c then (spans p s).map (fun m => (c :: m.1, m.2)) ++ [([], c :: s)] else [([], c :: s)]

namespace Regex

def splits : Regex α → List α → List (List α × List α)
  | empty, s => [([], s)]
  | one _, [] => []
  | one p, c :: s => if p c then [([c], s)] else []
  | many p, s => spans p s
  | seq a b, s => (a.splits s).flatMap fun m => (b.splits m.2).map fun n => (m.1 ++ n.1, n.2)
  | alt a b, s => a.splits s ++ b.splits s

def plus (p : α → Bool) : Regex α := seq (one p) (many p)

def opt (a : Regex α) : Regex α := alt a empty

/-- The expressions one after the other. -/
def chain : List (Regex α) → Regex α
  | [] => empty
  | a :: as => seq a (chain as)

/-- One element after the other, each up to `same`. -/
def literal (same : α → α → Bool) (s : List α) : Regex α := chain (s.map fun c => one (same c))

/-- The expression matches no empty part. -/
def Consumes (e : Regex α) : Prop := ∀ s, ∀ m ∈ e.splits s, m.1 ≠ []

theorem consumes_one (p : α → Bool) : (one p).Consumes := by
  intro s m hm
  cases s with
  | nil => cases hm
  | cons c s =>
    simp only [splits] at hm
    split at hm
    · rw [List.mem_singleton.mp hm]
      exact List.cons_ne_nil _ _
    · cases hm

theorem Consumes.seq_left {a b : Regex α} (h : a.Consumes) : (seq a b).Consumes := by
  intro s m hm
  obtain ⟨n, hn, hm⟩ := List.mem_flatMap.mp hm
  obtain ⟨k, -, rfl⟩ := List.mem_map.mp hm
  exact fun hnil => h s n hn (List.append_eq_nil_iff.mp hnil).1

theorem consumes_plus (p : α → Bool) : (plus p).Consumes := (consumes_one p).seq_left

end Regex

/-- A context and, at its end, the group that is captured. -/
structure Pattern (α : Type*) where
  lead : Regex α
  group : Regex α

/-- What the group captures at the start of the input. -/
def Pattern.captureAt (e : Pattern α) (s : List α) : Option (List α) :=
  (((e.lead.splits s).flatMap fun m => e.group.splits m.2).head?).map Prod.fst

def Pattern.search (e : Pattern α) (s : List α) : Option (List α) := s.tails.findSome? e.captureAt

theorem Pattern.search_ne_nil {e : Pattern α} (he : e.group.Consumes) {s x : List α} (h : e.search s = some x) :
    x ≠ [] := by
  obtain ⟨t, -, h⟩ := List.exists_of_findSome?_eq_some h
  obtain ⟨m, hm, rfl⟩ := Option.map_eq_some_iff.mp h
  obtain ⟨n, -, hm⟩ := List.mem_flatMap.mp (List.mem_of_mem_head? hm)
  exact he n.2 m hm

/-! ### What is left after a match -/

/-- The rests of the splits, in their order. -/
def Regex.rests (e : Regex α) (s : List α) : List (List α) := (e.splits s).map Prod.snd

/-- The rest after one element for each of `l`, each up to `same`. -/
def stripLiteral (same : α → α → Bool) : List α → List α → Option (List α)
  | [], s => some s
  | _ :: _, [] => none
  | c :: l, d :: s => if same c d then stripLiteral same l s else none

theorem stripLiteral_eq_some [DecidableEq α] {l s r : List α} :
    stripLiteral (fun c d => c == d) l s = some r ↔ s = l ++ r := by
  induction l generalizing s with
  | nil => exact Option.some_inj
  | cons c l ih =>
    cases s with
    | nil => exact iff_of_false (by nofun) (by nofun)
    | cons d s =>
      rw [stripLiteral, List.cons_append, List.cons.injEq]
      by_cases hcd : c = d
      · rw [if_pos (beq_iff_eq.mpr hcd), ih]
        exact ⟨fun h => ⟨hcd.symm, h⟩, fun h => h.2⟩
      · rw [if_neg fun h => hcd (beq_iff_eq.mp h)]
        exact iff_of_false (by nofun) fun h => hcd h.1.symm

namespace Regex

theorem rests_empty (s : List α) : (empty : Regex α).rests s = [s] := rfl

theorem rests_seq (a b : Regex α) (s : List α) : (seq a b).rests s = (a.rests s).flatMap b.rests := by
  simp only [rests, splits, List.map_flatMap, List.flatMap_map, List.map_map]
  rfl

theorem rests_alt (a b : Regex α) (s : List α) : (alt a b).rests s = a.rests s ++ b.rests s := List.map_append

theorem rests_one_cons (p : α → Bool) (c : α) (s : List α) :
    (one p).rests (c :: s) = if p c = true then [s] else [] := by
  unfold rests splits
  split <;> rfl

theorem self_mem_rests_many (p : α → Bool) (s : List α) : s ∈ (many p).rests s := by
  cases s with
  | nil => exact List.mem_singleton_self _
  | cons c s =>
    change c :: s ∈ (spans p (c :: s)).map Prod.snd
    unfold spans
    split
    · rw [List.map_append]
      exact List.mem_append_right _ (List.mem_singleton_self _)
    · exact List.mem_singleton_self _

/-- What a repetition leaves stands behind elements it could take. -/
theorem mem_rests_many {p : α → Bool} {s r : List α} (h : r ∈ (many p).rests s) :
    ∃ b, s = b ++ r ∧ ∀ c ∈ b, p c = true := by
  induction s generalizing r with
  | nil =>
    rw [List.mem_singleton.mp h]
    exact ⟨[], rfl, fun c hc => absurd hc List.not_mem_nil⟩
  | cons c s ih =>
    change r ∈ (spans p (c :: s)).map Prod.snd at h
    unfold spans at h
    by_cases hc : p c = true
    · rw [if_pos hc, List.map_append, List.map_map, List.mem_append] at h
      rcases h with h | h
      · obtain ⟨b, rfl, hb⟩ := ih h
        refine ⟨c :: b, rfl, fun d hd => ?_⟩
        rcases List.mem_cons.mp hd with rfl | hd
        · exact hc
        · exact hb d hd
      · rw [List.mem_singleton.mp h]
        exact ⟨[], rfl, fun d hd => absurd hd List.not_mem_nil⟩
    · rw [if_neg hc] at h
      rw [List.mem_singleton.mp h]
      exact ⟨[], rfl, fun d hd => absurd hd List.not_mem_nil⟩

theorem rests_literal (same : α → α → Bool) (l s : List α) : (literal same l).rests s = (stripLiteral same l s).toList := by
  induction l generalizing s with
  | nil => rfl
  | cons c l ih =>
    change (seq (one (same c)) (literal same l)).rests s = _
    rw [rests_seq]
    cases s with
    | nil => rfl
    | cons d s =>
      rw [rests_one_cons, stripLiteral]
      split
      · rw [List.flatMap_singleton, ih]
      · rfl

theorem rests_chain_pair (a b : Regex α) (s : List α) : (chain [a, b]).rests s = (a.rests s).flatMap b.rests := by
  have hb : (seq b empty).rests = b.rests := by
    funext t
    rw [rests_seq]
    exact List.flatMap_singleton' _
  change (seq a (seq b empty)).rests s = _
  rw [rests_seq, hb]

/-- A repetition first takes all it can; whatever else it leaves begins with an element it could take. -/
theorem rests_many (p : α → Bool) (s : List α) :
    ∃ l, (many p).rests s = s.dropWhile p :: l ∧ ∀ r ∈ l, ∃ c r', r = c :: r' ∧ p c = true := by
  induction s with
  | nil => exact ⟨[], rfl, nofun⟩
  | cons c s ih =>
    obtain ⟨l, hl, hmem⟩ := ih
    change (spans p s).map Prod.snd = _ at hl
    change ∃ l, (spans p (c :: s)).map Prod.snd = _ ∧ _
    unfold spans
    by_cases hc : p c = true
    · refine ⟨l ++ [c :: s], ?_, ?_⟩
      · rw [if_pos hc, List.map_append, List.map_map, List.dropWhile_cons_of_pos hc]
        have hsnd : (Prod.snd ∘ fun m : List α × List α => (c :: m.1, m.2)) = Prod.snd := rfl
        rw [hsnd, hl]
        rfl
      · intro r hr
        rcases List.mem_append.mp hr with hr | hr
        · exact hmem r hr
        · exact ⟨c, s, List.mem_singleton.mp hr, hc⟩
    · rw [if_neg hc, List.dropWhile_cons_of_neg hc]
      exact ⟨[], rfl, nofun⟩

end Regex

theorem Pattern.captureAt_eq (e : Pattern α) (s : List α) :
    e.captureAt s = (((e.lead.rests s).flatMap e.group.splits).head?).map Prod.fst := by
  rw [captureAt, Regex.rests, List.flatMap_map]

/-- Alternatives at the front of the context are tried one after the other. -/
theorem Pattern.captureAt_alt (a b c g : Regex α) (s : List α) :
    Pattern.captureAt ⟨Regex.chain [.alt a b, c], g⟩ s =
      (Pattern.captureAt ⟨Regex.chain [a, c], g⟩ s).or (Pattern.captureAt ⟨Regex.chain [b, c], g⟩ s) := by
  simp only [captureAt_eq, Regex.rests_chain_pair, Regex.rests_alt, List.flatMap_append, List.head?_append,
    Option.map_or]

end ReleaseValidation.Regexes
