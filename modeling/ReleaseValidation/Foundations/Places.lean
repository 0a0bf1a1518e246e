import ReleaseValidation.Foundations.Regexes

/-! # What an expression matches, and where a pattern does

An expression matches the same parts whatever follows them. It is greedy if the first of its splits
is a longest one. A search that captures is a search for the place where what is captured starts.
-/
namespace ReleaseValidation.Regexes
variable {α : Type*}

namespace Regex

/-- The expression matches the text as a whole. -/
def Matches : Regex α → List α → Prop
  | empty, m => m = []
  | one p, m => ∃ c, p c = true ∧ m = [c]
  | many p, m => ∀ c ∈ m, p c = true
  | seq a b, m => ∃ x y, a.Matches x ∧ b.Matches y ∧ m = x ++ y
  | alt a b, m => a.Matches m ∨ b.Matches m

theorem mem_spans_iff {p : α → Bool} {s : List α} {m : List α × List α} :
    m ∈ spans p s ↔ (∀ c ∈ m.1, p c = true) ∧ s = m.1 ++ m.2 := by
  obtain ⟨x, y⟩ := m
  induction s generalizing x with
  | nil =>
    rw [spans, List.mem_singleton, Prod.mk.injEq]
    constructor
    · rintro ⟨rfl, rfl⟩
      exact ⟨fun c hc => absurd hc List.not_mem_nil, rfl⟩
    · rintro ⟨-, h⟩
      exact List.append_eq_nil_iff.mp h.symm
  | cons c s ih =>
    rw [spans]
    cases x with
    | nil =>
      have hshort : ∀ l : List (List α × List α), ([], y) ∉ l.map fun m => (c :: m.1, m.2) := by
        intro l h
        obtain ⟨n, -, hn⟩ := List.mem_map.mp h
        cases congrArg Prod.fst hn
      have hlast : ([], y) ∈ [(([] : List α), c :: s)] ↔ c :: s = y := by
        rw [List.mem_singleton, Prod.mk.injEq]
        exact ⟨fun h => h.2.symm, fun h => ⟨rfl, h.symm⟩⟩
      have hall : ∀ d ∈ ([] : List α), p d = true := fun d hd => absurd hd List.not_mem_nil
      rw [List.nil_append, and_iff_right hall]
      split
      next => rw [List.mem_append, or_iff_right (hshort _), hlast]
      next => exact hlast
    | cons d x =>
      have hlast : (d :: x, y) ∉ [(([] : List α), c :: s)] := by
        rw [List.mem_singleton]
        exact fun h => by cases congrArg Prod.fst h
      rw [List.cons_append, List.cons.injEq, List.forall_mem_cons]
      split
      next hc =>
        rw [List.mem_append, or_iff_left hlast, List.mem_map]
        constructor
        · rintro ⟨⟨x', y'⟩, hmem, heq⟩
          obtain ⟨hcons, rfl⟩ := Prod.mk.inj heq
          obtain ⟨rfl, rfl⟩ := List.cons.inj hcons
          obtain ⟨hall, hs⟩ := (ih x').mp hmem
          exact ⟨⟨hc, hall⟩, rfl, hs⟩
        · rintro ⟨⟨-, hall⟩, rfl, hs⟩
          exact ⟨(x, y), (ih x).mpr ⟨hall, hs⟩, rfl⟩
      next hc => exact iff_of_false hlast fun h => hc (by rw [h.2.1]; exact h.1.1)

/-- The splits of a text are its divisions behind a part that is matched. -/
theorem mem_splits_iff {e : Regex α} {s : List α} {m : List α × List α} :
    m ∈ e.splits s ↔ e.Matches m.1 ∧ s = m.1 ++ m.2 := by
  induction e generalizing s m with
  | empty =>
    rw [splits, List.mem_singleton, Matches]
    constructor
    · rintro rfl
      exact ⟨rfl, rfl⟩
    · rintro ⟨hm, rfl⟩
      exact Prod.ext hm (by rw [hm]; rfl)
  | one p =>
    cases s with
    | nil =>
      rw [splits]
      refine iff_of_false List.not_mem_nil ?_
      rintro ⟨⟨c, -, hm⟩, hs⟩
      rw [hm] at hs
      cases hs
    | cons c s =>
      rw [splits]
      constructor
      · intro h
        split at h
        next hc =>
          rw [List.mem_singleton.mp h]
          exact ⟨⟨c, hc, rfl⟩, rfl⟩
        next => cases h
      · rintro ⟨⟨d, hd, hm⟩, hs⟩
        rw [hm] at hs
        obtain ⟨rfl, rfl⟩ := List.cons.inj hs
        rw [if_pos hd, List.mem_singleton, ← hm]
        rfl
  | many p => exact mem_spans_iff
  | seq a b iha ihb =>
    rw [splits, List.mem_flatMap]
    constructor
    · rintro ⟨n, hn, hm⟩
      obtain ⟨k, hk, rfl⟩ := List.mem_map.mp hm
      obtain ⟨ha, rfl⟩ := iha.mp hn
      obtain ⟨hb, hrest⟩ := ihb.mp hk
      exact ⟨⟨n.1, k.1, ha, hb, rfl⟩, by rw [hrest, List.append_assoc]⟩
    · rintro ⟨⟨x, y, ha, hb, hm⟩, rfl⟩
      refine ⟨(x, y ++ m.2), iha.mpr ⟨ha, by rw [hm, List.append_assoc]⟩, ?_⟩
      exact List.mem_map.mpr ⟨(y, m.2), ihb.mpr ⟨hb, rfl⟩, Prod.ext hm.symm rfl⟩
  | alt a b iha ihb => rw [splits, List.mem_append, iha, ihb, Matches, or_and_right]

/-- No split takes more than the first one. -/
def Greedy (e : Regex α) : Prop := ∀ s m, (e.splits s).head? = some m → ∀ n ∈ e.splits s, n.1.length ≤ m.1.length

/-- The first split takes most, and what any other leaves begins with an element that satisfies `p`. -/
def Leading (p : α → Bool) (e : Regex α) : Prop :=
  ∀ s, e.splits s = [] ∨ ∃ m l, e.splits s = m :: l ∧
    ∀ n ∈ l, n.1.length ≤ m.1.length ∧ ∃ c r, n.2 = c :: r ∧ p c = true

theorem Leading.greedy {p : α → Bool} {e : Regex α} (h : Leading p e) : Greedy e := by
  intro s m hm n hn
  rcases h s with hnil | ⟨k, l, hl, hrest⟩
  · rw [hnil] at hn
    cases hn
  · rw [hl] at hm hn
    cases Option.some.inj hm
    rcases List.mem_cons.mp hn with rfl | hn
    · exact le_rfl
    · exact (hrest n hn).1

theorem leading_one (p q : α → Bool) : Leading p (one q) := by
  intro s
  cases s with
  | nil => exact Or.inl rfl
  | cons c s =>
    rw [splits]
    split
    next => exact Or.inr ⟨_, [], rfl, fun n hn => absurd hn List.not_mem_nil⟩
    next => exact Or.inl rfl

theorem spans_leading (p : α → Bool) (s : List α) :
    ∃ m l, spans p s = m :: l ∧ ∀ n ∈ l, n.1.length ≤ m.1.length ∧ ∃ c r, n.2 = c :: r ∧ p c = true := by
  induction s with
  | nil => exact ⟨_, [], rfl, fun n hn => absurd hn List.not_mem_nil⟩
  | cons c s ih =>
    obtain ⟨m, l, hl, hrest⟩ := ih
    rw [spans]
    by_cases hc : p c = true
    · rw [if_pos hc, hl]
      refine ⟨_, _, rfl, fun n hn => ?_⟩
      rcases List.mem_append.mp hn with hn | hn
      · obtain ⟨k, hk, rfl⟩ := List.mem_map.mp hn
        obtain ⟨hle, hmore⟩ := hrest k hk
        exact ⟨Nat.succ_le_succ hle, hmore⟩
      · rw [List.mem_singleton.mp hn]
        exact ⟨Nat.zero_le _, c, s, rfl, hc⟩
    · rw [if_neg hc]
      exact ⟨_, [], rfl, fun n hn => absurd hn List.not_mem_nil⟩

theorem leading_plus (p : α → Bool) : Leading p (plus p) := by
  intro s
  cases s with
  | nil => exact Or.inl rfl
  | cons c s =>
    obtain ⟨m, l, hl, hrest⟩ := spans_leading p s
    have hsplits : (plus p).splits (c :: s) = if p c = true then (m :: l).map fun n => (c :: n.1, n.2) else [] := by
      rw [plus, splits, splits]
      split
      next => rw [List.flatMap_singleton, splits, hl]; rfl
      next => rfl
    rw [hsplits]
    split
    next =>
      refine Or.inr ⟨_, _, rfl, fun n hn => ?_⟩
      obtain ⟨k, hk, rfl⟩ := List.mem_map.mp hn
      obtain ⟨hle, hmore⟩ := hrest k hk
      exact ⟨Nat.succ_le_succ hle, hmore⟩
    next => exact Or.inl rfl

section Sequences
variable {p : α → Bool} {a b : Regex α}

theorem splits_seq_of_leading (ha : Leading p a) (hb : ∀ c r, p c = true → b.splits (c :: r) = []) (s : List α) :
    (seq a b).splits s = [] ∨
      ∃ m, m ∈ a.splits s ∧ (seq a b).splits s = (b.splits m.2).map fun n => (m.1 ++ n.1, n.2) := by
  rcases ha s with hnil | ⟨m, l, hl, hrest⟩
  · exact Or.inl (by rw [splits, hnil, List.flatMap_nil])
  · refine Or.inr ⟨m, by rw [hl]; exact List.mem_cons_self, ?_⟩
    have hothers : (l.flatMap fun m => (b.splits m.2).map fun n => (m.1 ++ n.1, n.2)) = [] := by
      rw [List.flatMap_eq_nil_iff]
      intro n hn
      obtain ⟨-, c, r, hcr, hc⟩ := hrest n hn
      rw [hcr, hb c r hc, List.map_nil]
    rw [splits, hl, List.flatMap_cons, hothers, List.append_nil]

/-- Behind elements that cannot start what follows, the splits are those of what follows. -/
theorem Leading.greedy_seq (ha : Leading p a) (hb : ∀ c r, p c = true → b.splits (c :: r) = []) (hgreedy : Greedy b) :
    Greedy (seq a b) := by
  intro s k hk n hn
  rcases splits_seq_of_leading ha hb s with hnil | ⟨m, -, hsplits⟩
  · rw [hnil] at hn
    cases hn
  · rw [hsplits] at hk hn
    rw [List.head?_map] at hk
    obtain ⟨k', hk', rfl⟩ := Option.map_eq_some_iff.mp hk
    obtain ⟨n', hn', rfl⟩ := List.mem_map.mp hn
    have hle := hgreedy m.2 k' hk' n' hn'
    rw [List.length_append, List.length_append]
    exact Nat.add_le_add_left hle _

theorem splits_opt (b : Regex α) (s : List α) : (opt b).splits s = b.splits s ++ [([], s)] := rfl

theorem Greedy.opt (hb : Greedy b) : Greedy (opt b) := by
  intro s m hm n hn
  rw [splits_opt] at hm hn
  cases hsplits : b.splits s with
  | nil =>
    rw [hsplits] at hm hn
    cases Option.some.inj hm
    rw [List.mem_singleton.mp hn]
  | cons k l =>
    have hfirst : (b.splits s).head? = some m := by
      rw [hsplits] at hm ⊢
      exact hm
    rcases List.mem_append.mp hn with hn | hn
    · exact hb s m hfirst n hn
    · rw [List.mem_singleton.mp hn]
      exact Nat.zero_le _

/-- An optional part is not taken behind fewer elements than can be taken before it. -/
theorem Leading.greedy_opt (ha : Leading p a) (hb : ∀ c r, p c = true → b.splits (c :: r) = []) (hgreedy : Greedy b) :
    Greedy (seq a (Regex.opt b)) := by
  intro s k hk n hn
  rcases ha s with hnil | ⟨m, l, hl, hrest⟩
  · rw [splits, hnil] at hn
    cases hn
  · rw [splits, hl, List.flatMap_cons] at hk hn
    have hsome : ∃ k', ((Regex.opt b).splits m.2).head? = some k' := by
      rw [splits_opt]
      cases b.splits m.2 with
      | nil => exact ⟨_, rfl⟩
      | cons k' _ => exact ⟨k', rfl⟩
    obtain ⟨k', hk'⟩ := hsome
    rw [List.head?_append, List.head?_map, hk'] at hk
    cases Option.some.inj hk
    dsimp only
    rw [List.length_append]
    rcases List.mem_append.mp hn with hn | hn
    · obtain ⟨n', hn', rfl⟩ := List.mem_map.mp hn
      have hle := hgreedy.opt m.2 k' hk' n' hn'
      rw [List.length_append]
      exact Nat.add_le_add_left hle _
    · obtain ⟨n', hn', hn⟩ := List.mem_flatMap.mp hn
      obtain ⟨hle, c, r, hcr, hc⟩ := hrest n' hn'
      rw [hcr, splits_opt, hb c r hc] at hn
      rw [List.mem_singleton.mp hn]
      change (n'.1 ++ []).length ≤ _
      rw [List.append_nil]
      exact hle.trans (Nat.le_add_right _ _)

theorem splits_seq_empty (a : Regex α) (s : List α) : (seq a empty).splits s = a.splits s := by
  have hmap : (fun m : List α × List α => ((empty : Regex α).splits m.2).map fun n => (m.1 ++ n.1, n.2)) =
      fun m => [m] := by
    funext m
    rw [splits, List.map_singleton, List.append_nil]
  rw [splits, hmap, List.flatMap_singleton']

theorem Greedy.congr (h : ∀ s, a.splits s = b.splits s) (hb : Greedy b) : Greedy a := by
  intro s m hm n hn
  rw [h] at hm hn
  exact hb s m hm n hn

end Sequences
end Regex

/-! ### Places -/

section Places
variable (lead : Regex α) (p : List α → Bool)

/-- The text up to the first place behind the context at which the rest satisfies `p`, and this rest. -/
def place : List α → Option (List α × List α)
  | [] => (lead.splits []).find? fun m => p m.2
  | c :: s => ((lead.splits (c :: s)).find? fun m => p m.2).or ((place s).map fun m => (c :: m.1, m.2))

variable {lead p}

theorem place_spec {s : List α} {m : List α × List α} (h : place lead p s = some m) : s = m.1 ++ m.2 ∧ p m.2 = true := by
  have hfind : ∀ t n, (lead.splits t).find? (fun m => p m.2) = some n → t = n.1 ++ n.2 ∧ p n.2 = true :=
    fun t n hn => ⟨(Regex.mem_splits_iff.mp (List.mem_of_find?_eq_some hn)).2,
      List.find?_some (p := fun m : List α × List α => p m.2) hn⟩
  induction s generalizing m with
  | nil => exact hfind [] m h
  | cons c s ih =>
    rw [place] at h
    rcases Option.or_eq_some_iff.mp h with h | ⟨-, h⟩
    · exact hfind (c :: s) m h
    · obtain ⟨n, hn, rfl⟩ := Option.map_eq_some_iff.mp h
      obtain ⟨hs, hp⟩ := ih hn
      exact ⟨by rw [hs]; rfl, hp⟩

theorem find_bind_head {f : List α → List (List α × List α)} (l : List (List α × List α)) :
    (l.flatMap fun m => f m.2).head? = (l.find? fun m => !(f m.2).isEmpty).bind fun m => (f m.2).head? := by
  induction l with
  | nil => rfl
  | cons m l ih =>
    rw [List.flatMap_cons, List.head?_append, List.find?_cons]
    cases hm : f m.2 with
    | nil =>
      rw [ih]
      rfl
    | cons n k =>
      change some n = (f m.2).head?
      rw [hm]
      rfl

/-- What a pattern captures is what its group captures at the first place where it captures anything. -/
theorem Pattern.search_eq_place (e : Pattern α) (s : List α) :
    e.search s = (place e.lead (fun r => !(e.group.splits r).isEmpty) s).bind
      fun m => (e.group.splits m.2).head?.map Prod.fst := by
  have hat : ∀ t, e.captureAt t = ((e.lead.splits t).find? fun m => !(e.group.splits m.2).isEmpty).bind
      fun m => (e.group.splits m.2).head?.map Prod.fst := by
    intro t
    rw [captureAt, find_bind_head, Option.map_bind]
    rfl
  induction s with
  | nil =>
    have htails : e.search [] = e.captureAt [] := by
      rw [search, List.tails, List.findSome?_cons]
      cases e.captureAt [] <;> rfl
    rw [htails, hat, place]
  | cons c s ih =>
    have htails : e.search (c :: s) = (e.captureAt (c :: s)).or (e.search s) := by
      rw [search, List.tails_cons, List.findSome?_cons]
      cases e.captureAt (c :: s) <;> rfl
    rw [htails, hat, ih, place]
    cases hfind : (e.lead.splits (c :: s)).find? fun m => !(e.group.splits m.2).isEmpty with
    | none => cases place e.lead (fun r => !(e.group.splits r).isEmpty) s <;> rfl
    | some m =>
      have hsplits := List.find?_some (p := fun m : List α × List α => !(e.group.splits m.2).isEmpty) hfind
      rw [Option.some_or, Option.bind_some]
      cases hm : e.group.splits m.2 with
      | nil =>
        rw [hm] at hsplits
        cases hsplits
      | cons n l => rfl

end Places
end ReleaseValidation.Regexes
