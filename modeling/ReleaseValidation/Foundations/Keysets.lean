import Mathlib.Data.List.Sort
import Mathlib.Order.Basic

/-! # Pages that follow a key

The rows of a list have increasing keys. A page holds the first of the rows above a cursor
and may name the key of its last row as the next cursor. A reader who follows the cursors
comes to an end, and has read every row once. Where rows share a key, sorting leaves them
in their order.
-/
namespace ReleaseValidation.Keysets
variable {ρ κ ε : Type*}

/-- The pages that a reader gets from the cursor `c` on, when the last of them names no cursor. -/
inductive Follows (fetch : Option κ → Except ε (List ρ × Option κ)) : Option κ → List (List ρ) → Prop
  | last {c : Option κ} {page : List ρ} (h : fetch c = .ok (page, none)) : Follows fetch c [page]
  | next {c : Option κ} {page : List ρ} {k : κ} {pages : List (List ρ)} (h : fetch c = .ok (page, some k))
      (rest : Follows fetch (some k) pages) : Follows fetch c (page :: pages)

theorem Follows.fetched {fetch : Option κ → Except ε (List ρ × Option κ)} {c : Option κ} {pages : List (List ρ)}
    (h : Follows fetch c pages) : ∃ answer, fetch c = .ok answer := by
  cases h with
  | last h => exact ⟨_, h⟩
  | next h => exact ⟨_, h⟩

variable {key : ρ → κ} {rows : List ρ}

/-- The cursor is that of the first call or the key of a row. -/
def IsCursor (key : ρ → κ) (rows : List ρ) (c : Option κ) : Prop := ∀ k ∈ c, ∃ r ∈ rows, key r = k

theorem isCursor_none : IsCursor key rows none := nofun

variable [LinearOrder κ]

/-- The rows above a cursor. -/
def above (key : ρ → κ) (c : Option κ) (rows : List ρ) : List ρ := rows.filter fun r => ∀ k ∈ c, k < key r

/-- An answer holds the next `n` rows; it may name the last of them, and does so if there are more. -/
def Serves (key : ρ → κ) (rows : List ρ) (n : ℕ) (fetch : Option κ → Except ε (List ρ × Option κ)) : Prop :=
  ∀ c, IsCursor key rows c → ∃ next, fetch c = .ok ((above key c rows).take n, next) ∧
    (next = none → (above key c rows).length ≤ n) ∧
    ∀ k ∈ next, ∃ r, ((above key c rows).take n).getLast? = some r ∧ key r = k

/-- The rows in the order of their keys. -/
def byKey (key : ρ → κ) (rows : List ρ) : List ρ := rows.insertionSort (key · ≤ key ·)

theorem byKey_perm (key : ρ → κ) (rows : List ρ) : (byKey key rows).Perm rows := List.perm_insertionSort _ rows

theorem byKey_sorted (key : ρ → κ) (rows : List ρ) : (byKey key rows).Pairwise (key · ≤ key ·) := by
  have htotal : Std.Total (fun a b : ρ => key a ≤ key b) := ⟨fun a b => le_total (key a) (key b)⟩
  have htrans : IsTrans ρ (fun a b : ρ => key a ≤ key b) := ⟨fun _ _ _ => le_trans⟩
  exact List.pairwise_insertionSort _ rows

theorem byKey_strict (hkeys : (rows.map key).Nodup) : (byKey key rows).Pairwise (key · < key ·) := by
  have hnodup : (byKey key rows).Pairwise (key · ≠ key ·) :=
    List.pairwise_map.mp (((byKey_perm key rows).map key).nodup_iff.mpr hkeys)
  exact ((byKey_sorted key rows).and hnodup).imp fun h => lt_of_le_of_ne h.1 h.2

/-- Rows with increasing keys are the only such arrangement of themselves. -/
theorem eq_of_perm {xs ys : List ρ} (hx : xs.Pairwise (key · < key ·)) (hy : ys.Pairwise (key · < key ·))
    (h : xs.Perm ys) : xs = ys :=
  List.Perm.eq_of_pairwise (fun _ _ _ _ hab hba => absurd hab (lt_asymm hba)) hx hy h

theorem byKey_filter (hkeys : (rows.map key).Nodup) (p : ρ → Bool) :
    byKey key (rows.filter p) = (byKey key rows).filter p := by
  have hsub : ((rows.filter p).map key).Nodup := hkeys.sublist (List.filter_sublist.map key)
  exact eq_of_perm (byKey_strict hsub) ((byKey_strict hkeys).filter p)
    ((byKey_perm key _).trans ((byKey_perm key rows).symm.filter p))

/-- Among sorted rows those from a key on are the last ones. -/
theorem dropWhile_eq_filter (hrows : rows.Pairwise (key · ≤ key ·)) (k : κ) :
    rows.dropWhile (fun x => ¬ k ≤ key x) = rows.filter (k ≤ key ·) := by
  induction rows with
  | nil => rfl
  | cons x rows ih =>
    obtain ⟨hx, hrows⟩ := List.pairwise_cons.mp hrows
    by_cases hk : k ≤ key x
    · have hall : ∀ y ∈ x :: rows, decide (k ≤ key y) = true := by
        rw [List.forall_mem_cons]
        exact ⟨decide_eq_true hk, fun y hy => decide_eq_true (hk.trans (hx y hy))⟩
      rw [List.filter_eq_self.mpr hall, List.dropWhile_cons_of_neg (by simpa using hk)]
    · rw [List.dropWhile_cons_of_pos (by simpa using hk), ih hrows, List.filter_cons_of_neg (by simpa using hk)]

/-- A row that is inserted before another one leaves what is behind that. -/
theorem orderedInsert_before {x r : ρ} (h : key x ≤ key r) (lower upper : List ρ) :
    ∃ lower', (lower ++ r :: upper).orderedInsert (key · ≤ key ·) x = lower' ++ r :: upper := by
  induction lower with
  | nil => exact ⟨[x], List.orderedInsert_cons_of_le _ _ h⟩
  | cons y lower ih =>
    by_cases hy : key x ≤ key y
    · exact ⟨x :: y :: lower, List.orderedInsert_cons_of_le _ _ hy⟩
    · obtain ⟨lower', hlower⟩ := ih
      refine ⟨y :: lower', ?_⟩
      rw [List.cons_append, List.orderedInsert_cons, if_neg hy, hlower, List.cons_append]

theorem orderedInsert_behind {x r : ρ} (h : key r < key x) {lower : List ρ} (hlower : ∀ y ∈ lower, key y ≤ key r)
    (upper : List ρ) : (lower ++ r :: upper).orderedInsert (key · ≤ key ·) x =
      lower ++ r :: upper.orderedInsert (key · ≤ key ·) x := by
  induction lower with
  | nil => exact List.orderedInsert_of_not_le _ _ (not_le.mpr h)
  | cons y lower ih =>
    obtain ⟨hy, hlower⟩ := List.forall_mem_cons.mp hlower
    rw [List.cons_append, List.orderedInsert_cons, if_neg (not_le.mpr (hy.trans_lt h)), ih hlower, List.cons_append]

/-- Rows with one key stay in their order: behind a row come those with a greater key and the later ones with its own. -/
theorem byKey_split (key : ρ → κ) (before after : List ρ) (r : ρ) :
    ∃ lower upper, byKey key (before ++ r :: after) = lower ++ r :: upper ∧
      upper.length = (before.filter (key r < key ·)).length + (after.filter (key r ≤ key ·)).length := by
  induction before with
  | nil =>
    refine ⟨_, _, List.orderedInsert_eq_take_drop _ _ _, ?_⟩
    rw [List.filter_nil, List.length_nil, Nat.zero_add, ← ((byKey_perm key after).filter _).length_eq]
    exact congrArg List.length (dropWhile_eq_filter (byKey_sorted key after) (key r))
  | cons x before ih =>
    obtain ⟨lower, upper, hsort, hupper⟩ := ih
    have hcons : byKey key (x :: before ++ r :: after) =
        (lower ++ r :: upper).orderedInsert (key · ≤ key ·) x := by rw [← hsort]; rfl
    by_cases hx : key r < key x
    · have hsorted := byKey_sorted key (before ++ r :: after)
      rw [hsort] at hsorted
      have hlower : ∀ y ∈ lower, key y ≤ key r := fun y hy =>
        (List.pairwise_append.mp hsorted).2.2 y hy r List.mem_cons_self
      refine ⟨lower, _, hcons.trans (orderedInsert_behind hx hlower upper), ?_⟩
      rw [List.orderedInsert_length, hupper, List.filter_cons_of_pos (by simpa using hx), List.length_cons]
      omega
    · obtain ⟨lower', hlower'⟩ := orderedInsert_before (not_lt.mp hx) lower upper
      refine ⟨lower', upper, hcons.trans hlower', ?_⟩
      rw [hupper, List.filter_cons_of_neg (by simpa using hx)]

theorem above_none (rows : List ρ) : above key none rows = rows := by
  simp [above]

theorem above_above {c : Option κ} {k : κ} (h : ∀ l ∈ c, l ≤ k) :
    above key (some k) (above key c rows) = above key (some k) rows := by
  simp only [above, List.filter_filter]
  congr 1
  funext r
  simp only [Option.mem_some_iff, forall_eq', Bool.and_eq_decide, decide_eq_decide, decide_eq_true_eq]
  exact and_iff_left_of_imp fun hk l hl => (h l hl).trans_lt hk

/-- The rows above a row are those after it. -/
theorem above_key {xs ys : List ρ} {r : ρ} (h : (xs ++ r :: ys).Pairwise (key · < key ·)) :
    above key (some (key r)) (xs ++ r :: ys) = ys := by
  obtain ⟨-, hys, hxs⟩ := List.pairwise_append.mp h
  have hbelow : xs.filter (fun x => decide (key r < key x)) = [] := by
    rw [List.filter_eq_nil_iff]
    intro x hx hlt
    exact lt_asymm (hxs x hx r List.mem_cons_self) (of_decide_eq_true hlt)
  have habove : ys.filter (fun x => decide (key r < key x)) = ys := by
    rw [List.filter_eq_self]
    intro y hy
    exact decide_eq_true (List.rel_of_pairwise_cons hys hy)
  simp [above, List.filter_append, hbelow, habove]

/-- After a page, what is above its last row is what the page has left. -/
theorem above_last (hrows : rows.Pairwise (key · < key ·)) {c : Option κ} {n : ℕ} {r : ρ}
    (h : ((above key c rows).take n).getLast? = some r) :
    above key (some (key r)) rows = (above key c rows).drop n := by
  obtain ⟨xs, hxs⟩ := List.getLast?_eq_some_iff.mp h
  have hmem : r ∈ above key c rows := List.mem_of_mem_take (hxs ▸ List.mem_append_right xs List.mem_cons_self)
  have hc : ∀ l ∈ c, l ≤ key r := fun l hl => (of_decide_eq_true (List.mem_filter.mp hmem).2 l hl).le
  have hsplit : above key c rows = xs ++ r :: (above key c rows).drop n := by
    conv_lhs => rw [← List.take_append_drop n (above key c rows), hxs]
    rw [List.append_assoc, List.singleton_append]
  have hsorted : (above key c rows).Pairwise (key · < key ·) := hrows.filter _
  rw [← above_above hc]
  generalize (above key c rows).drop n = rest at hsplit ⊢
  rw [hsplit] at hsorted ⊢
  exact above_key hsorted

/-- A reader who follows the cursors of such answers reads what is above the first one. -/
theorem exists_follows (hrows : rows.Pairwise (key · < key ·)) {n : ℕ} (hn : 0 < n)
    {fetch : Option κ → Except ε (List ρ × Option κ)} (hserves : Serves key rows n fetch) (c : Option κ)
    (hc : IsCursor key rows c) : ∃ pages, Follows fetch c pages ∧ pages.flatten = above key c rows := by
  induction hlen : (above key c rows).length using Nat.strong_induction_on generalizing c with
  | _ m ih =>
    obtain ⟨next, hfetch, hnone, hsome⟩ := hserves c hc
    cases next with
    | none =>
      refine ⟨_, .last hfetch, ?_⟩
      rw [List.flatten_cons, List.flatten_nil, List.append_nil, List.take_of_length_le (hnone rfl)]
    | some k =>
      obtain ⟨r, hlast, rfl⟩ := hsome k rfl
      have hrest : above key (some (key r)) rows = (above key c rows).drop n := above_last hrows hlast
      have hmem : r ∈ above key c rows := List.mem_of_mem_take (List.mem_of_getLast? hlast)
      have hpos : 0 < (above key c rows).length := List.length_pos_of_mem hmem
      have hless : (above key (some (key r)) rows).length < m := by
        rw [hrest, List.length_drop]
        omega
      have hcursor : IsCursor key rows (some (key r)) := by
        intro k hk
        exact ⟨r, (List.mem_filter.mp hmem).1, Option.mem_some_iff.mp hk⟩
      obtain ⟨pages, hpages, hflat⟩ := ih _ hless _ hcursor rfl
      refine ⟨_, .next hfetch hpages, ?_⟩
      rw [List.flatten_cons, hflat, hrest, List.take_append_drop]

end ReleaseValidation.Keysets
