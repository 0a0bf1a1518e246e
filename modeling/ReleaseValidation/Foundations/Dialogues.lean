import Mathlib.Algebra.Group.Nat.Even
import Mathlib.Data.List.Basic

/-! # Dialogues with questions and answers

A dialogue is a list of turns. A turn may ask questions, each known by an identifier, and may
answer some. In a paired dialogue the questions of a turn are answered by the very next one.
-/
namespace ReleaseValidation.Dialogues
variable {ι : Type*}

inductive Role
  | user
  | assistant
  deriving DecidableEq, Repr

structure Turn (ι : Type*) where
  role : Role
  asks : List ι
  answers : List ι

/-- The turn takes no part in questions and answers. -/
def Turn.Plain (t : Turn ι) : Prop := t.asks = [] ∧ t.answers = []

/-- The assistant asks and the user answers every question, in their order. -/
structure Round (a u : Turn ι) : Prop where
  asker : a.role = .assistant
  asking : a.asks ≠ []
  distinct : a.asks.Nodup
  fresh : a.answers = []
  answerer : u.role = .user
  done : u.asks = []
  matching : u.answers = a.asks

/-- A dialogue of nothing but rounds. -/
inductive Rounds : List (Turn ι) → Prop
  | nil : Rounds []
  | cons {a u : Turn ι} {ts : List (Turn ι)} : Round a u → Rounds ts → Rounds (a :: u :: ts)

inductive Paired : List (Turn ι) → Prop
  | nil : Paired []
  | plain {t : Turn ι} {ts : List (Turn ι)} : t.Plain → Paired ts → Paired (t :: ts)
  | round {a u : Turn ι} {ts : List (Turn ι)} : Round a u → Paired ts → Paired (a :: u :: ts)

/-- The user speaks first, if anyone does. -/
def StartsWithUser (ts : List (Turn ι)) : Prop := ∀ t ∈ ts.head?, t.role = .user

/-- At most two plain turns, the first of them the user's, and then rounds. -/
def Opened (ts : List (Turn ι)) : Prop :=
  ∃ front rounds, ts = front ++ rounds ∧ front ≠ [] ∧ front.length ≤ 2 ∧ StartsWithUser front ∧
    (∀ t ∈ front, t.Plain) ∧ Rounds rounds

theorem startsWithUser_append {ts us : List (Turn ι)} (h : StartsWithUser ts) (hne : ts ≠ []) :
    StartsWithUser (ts ++ us) := by
  rw [StartsWithUser, List.head?_append_of_ne_nil _ hne]
  exact h

namespace Rounds

theorem append {ts us : List (Turn ι)} (h : Rounds ts) (hu : Rounds us) : Rounds (ts ++ us) := by
  induction h with
  | nil => exact hu
  | cons hround _ ih => exact ih.cons hround

theorem even_length {ts : List (Turn ι)} (h : Rounds ts) : Even ts.length := by
  induction h with
  | nil => exact ⟨0, rfl⟩
  | cons _ _ ih => exact ih.add ⟨1, rfl⟩

/-- What is left of rounds after a whole number of them. -/
theorem drop {ts : List (Turn ι)} (h : Rounds ts) {n : ℕ} (hn : Even n) : Rounds (ts.drop n) := by
  obtain ⟨k, rfl⟩ := hn
  induction h generalizing k with
  | nil =>
    rw [List.drop_nil]
    exact Rounds.nil
  | cons hround hts ih =>
    cases k with
    | zero => exact hts.cons hround
    | succ k =>
      rw [Nat.add_add_add_comm]
      exact ih k

end Rounds

namespace Paired

theorem append {ts us : List (Turn ι)} (h : Paired ts) (hu : Paired us) : Paired (ts ++ us) := by
  induction h with
  | nil => exact hu
  | plain hplain _ ih => exact ih.plain hplain
  | round hround _ ih => exact ih.round hround

theorem of_plain {ts : List (Turn ι)} (h : ∀ t ∈ ts, t.Plain) : Paired ts := by
  induction ts with
  | nil => exact Paired.nil
  | cons t ts ih =>
    obtain ⟨ht, hts⟩ := List.forall_mem_cons.mp h
    exact (ih hts).plain ht

theorem of_rounds {ts : List (Turn ι)} (h : Rounds ts) : Paired ts := by
  induction h with
  | nil => exact Paired.nil
  | cons hround _ ih => exact ih.round hround

/-- A turn that answers follows the turn whose questions it answers. -/
theorem preceded {ts : List (Turn ι)} (h : Paired ts) {before after : List (Turn ι)} {t : Turn ι}
    (hts : ts = before ++ t :: after) (ht : t.answers ≠ []) : ∃ before' a, before = before' ++ [a] ∧ Round a t := by
  induction h generalizing before with
  | nil => cases before <;> cases hts
  | plain hplain _ ih =>
    cases before with
    | nil =>
      cases hts
      exact absurd hplain.2 ht
    | cons b before =>
      obtain ⟨-, hts⟩ := List.cons_eq_cons.mp hts
      obtain ⟨before', a, rfl, hround⟩ := ih hts
      exact ⟨b :: before', a, rfl, hround⟩
  | @round a u _ hround _ ih =>
    match before, hts with
    | [], hts =>
      cases hts
      exact absurd hround.fresh ht
    | [_], hts =>
      cases hts
      exact ⟨[], a, rfl, hround⟩
    | b :: c :: before, hts =>
      obtain ⟨-, hts⟩ := List.cons_eq_cons.mp hts
      obtain ⟨-, hts⟩ := List.cons_eq_cons.mp hts
      obtain ⟨before', a', rfl, hround'⟩ := ih hts
      exact ⟨b :: c :: before', a', rfl, hround'⟩

/-- A turn that asks is followed by the turn that answers it. -/
theorem followed {ts : List (Turn ι)} (h : Paired ts) {before after : List (Turn ι)} {t : Turn ι}
    (hts : ts = before ++ t :: after) (ht : t.asks ≠ []) : ∃ u after', after = u :: after' ∧ Round t u := by
  induction h generalizing before with
  | nil => cases before <;> cases hts
  | plain hplain _ ih =>
    cases before with
    | nil =>
      cases hts
      exact absurd hplain.1 ht
    | cons b before => exact ih (List.cons_eq_cons.mp hts).2
  | @round a u ts hround _ ih =>
    match before, hts with
    | [], hts =>
      cases hts
      exact ⟨u, ts, rfl, hround⟩
    | [_], hts =>
      cases hts
      exact absurd hround.done ht
    | _ :: _ :: before, hts => exact ih (List.cons_eq_cons.mp (List.cons_eq_cons.mp hts).2).2

/-- The answers of a paired dialogue are those to its questions. -/
theorem answers_eq_asks {ts : List (Turn ι)} (h : Paired ts) : ts.flatMap Turn.answers = ts.flatMap Turn.asks := by
  induction h with
  | nil => rfl
  | plain hplain _ ih =>
    simp only [List.flatMap_cons, hplain.1, hplain.2, ih]
  | round hround _ ih =>
    simp only [List.flatMap_cons, hround.fresh, hround.done, hround.matching, ih, List.nil_append]

end Paired

namespace Opened

theorem paired {ts : List (Turn ι)} (h : Opened ts) : Paired ts := by
  obtain ⟨front, rounds, rfl, -, -, -, hplain, hrounds⟩ := h
  exact (Paired.of_plain hplain).append (Paired.of_rounds hrounds)

theorem startsWithUser {ts : List (Turn ι)} (h : Opened ts) : StartsWithUser ts := by
  obtain ⟨front, rounds, rfl, hne, -, hstart, -⟩ := h
  exact startsWithUser_append hstart hne

theorem ne_nil {ts : List (Turn ι)} (h : Opened ts) : ts ≠ [] := by
  obtain ⟨front, rounds, rfl, hne, -⟩ := h
  exact List.append_ne_nil_of_left_ne_nil hne rounds

theorem opening {t : Turn ι} (hrole : t.role = .user) (hplain : t.Plain) : Opened [t] := by
  refine ⟨[t], [], rfl, List.cons_ne_nil _ _, Nat.le_of_ble_eq_true rfl, ?_, List.forall_mem_singleton.mpr hplain, Rounds.nil⟩
  rintro _ ⟨⟩
  exact hrole

theorem round {ts : List (Turn ι)} (h : Opened ts) {a u : Turn ι} (hround : Round a u) : Opened (ts ++ [a, u]) := by
  obtain ⟨front, rounds, rfl, hne, hlen, hstart, hplain, hrounds⟩ := h
  exact ⟨front, rounds ++ [a, u], List.append_assoc _ _ _, hne, hlen, hstart, hplain,
    hrounds.append (Rounds.nil.cons hround)⟩

/-- The last `n` turns of an opened dialogue, `n` even, that has more than `n + 1` of them are rounds. -/
theorem last_rounds {ts : List (Turn ι)} (h : Opened ts) {n : ℕ} (hn : Even n) (hlen : n + 1 < ts.length) :
    Rounds (ts.drop (ts.length - n)) := by
  obtain ⟨front, rounds, rfl, -, hfront, -, -, hrounds⟩ := h
  rw [List.length_append] at hlen ⊢
  have hle : n ≤ rounds.length := by omega
  rw [Nat.add_sub_assoc hle, List.drop_append, List.drop_of_length_le (Nat.le_add_right _ _), List.nil_append,
    Nat.add_sub_cancel_left]
  exact hrounds.drop ((Nat.even_sub hle).mpr ⟨fun _ => hn, fun _ => hrounds.even_length⟩)

/-- An opened dialogue of which all but its last rounds are replaced by two plain turns. -/
theorem resumed {p q : Turn ι} {ts : List (Turn ι)} (hrole : p.role = .user) (hp : p.Plain) (hq : q.Plain)
    (h : Rounds ts) : Opened (p :: q :: ts) := by
  refine ⟨[p, q], ts, rfl, List.cons_ne_nil _ _, Nat.le_of_ble_eq_true rfl, ?_, ?_, h⟩
  · rintro _ ⟨⟩
    exact hrole
  · exact List.forall_mem_cons.mpr ⟨hp, List.forall_mem_singleton.mpr hq⟩

end Opened

end ReleaseValidation.Dialogues
