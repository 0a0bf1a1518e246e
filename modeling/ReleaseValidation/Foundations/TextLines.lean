import Mathlib.Data.List.DropRight
import Mathlib.Data.List.Infix
import Mathlib.Data.List.TakeWhile

/-! # Lines of texts

A text is cut into lines at its line boundaries, of which a carriage return with a line feed is one.
A boundary is a whitespace character, so that a line loses none of its other characters when the
whitespace at its ends is taken away.
-/
namespace ReleaseValidation.TextLines

/-- `str.isspace`, for one character. -/
def isSpace (c : Char) : Bool :=
  c.toNat ∈ [0x09, 0x0a, 0x0b, 0x0c, 0x0d, 0x1c, 0x1d, 0x1e, 0x1f, 0x20, 0x85, 0xa0, 0x1680, 0x2000, 0x2001, 0x2002,
    0x2003, 0x2004, 0x2005, 0x2006, 0x2007, 0x2008, 0x2009, 0x200a, 0x2028, 0x2029, 0x202f, 0x205f, 0x3000]

/-- The characters at which `str.splitlines` cuts. -/
def isBoundary (c : Char) : Bool :=
  c.toNat ∈ [0x0a, 0x0b, 0x0c, 0x0d, 0x1c, 0x1d, 0x1e, 0x85, 0x2028, 0x2029]

/-- `text.strip()`. -/
def strip (t : List Char) : List Char := (t.dropWhile isSpace).rdropWhile isSpace

/-- `text.splitlines()`. -/
def splitLines : List Char → List (List Char)
  | [] => []
  | c :: t =>
    -- a line feed after a carriage return cuts for both
    if c = '\r' ∧ t.head? = some '\n' then splitLines t
    else if isBoundary c then [] :: splitLines t
    else
      match splitLines t with
      | [] => [[c]]
      | line :: lines => (c :: line) :: lines

/-- `[ln.strip() for ln in text.splitlines() if ln.strip()]`. -/
def filledLines (t : List Char) : List (List Char) := ((splitLines t).map strip).filter (· ≠ [])

/-- The lines of a file, each ended by a line feed but for the last. -/
def unixLines : List Char → List (List Char)
  | [] => []
  | c :: t =>
    if c = '\n' then [] :: unixLines t
    else
      match unixLines t with
      | [] => [[c]]
      | line :: lines => (c :: line) :: lines

/-- `text[-n:]`. -/
def lastOf (n : ℕ) (t : List Char) : List Char := t.drop (t.length - n)

/-- No character of the text is a line boundary. -/
def OneLine (t : List Char) : Prop := ∀ c ∈ t, isBoundary c = false

instance (t : List Char) : Decidable (OneLine t) := List.decidableBAll (fun c => isBoundary c = false) t

/-- What follows the text starts a line. -/
def EndsLine (t : List Char) : Prop := ∀ c ∈ t.getLast?, isBoundary c = true

instance (t : List Char) : Decidable (EndsLine t) := Option.decidableForallMem t.getLast?

theorem isSpace_of_isBoundary {c : Char} (h : isBoundary c = true) : isSpace c = true := by
  simp only [isBoundary, List.mem_cons, List.not_mem_nil, or_false, decide_eq_true_eq] at h
  rcases h with h | h | h | h | h | h | h | h | h | h
  all_goals
    rw [isSpace, h]
    rfl

theorem oneLine_of_filled {t : List Char} (h : ∀ c ∈ t, isSpace c = false) : OneLine t := fun c hc => by
  have hspace := h c hc
  cases hboundary : isBoundary c with
  | true => rw [isSpace_of_isBoundary hboundary] at hspace; cases hspace
  | false => rfl

/-! ### Whitespace at the ends -/

theorem strip_cons_of_not_isSpace {c : Char} {t : List Char} (hc : isSpace c = false) :
    strip (c :: t) = (c :: t).rdropWhile isSpace := by
  rw [strip, List.dropWhile_cons_of_neg (by simp [hc])]

/-- A text whose first and last characters are no whitespace stays as it is. -/
theorem strip_eq_self {t : List Char} (hfirst : ∀ c ∈ t.head?, isSpace c = false) (hlast : ∀ c ∈ t.getLast?, isSpace c = false) :
    strip t = t := by
  cases t with
  | nil => rfl
  | cons c t =>
    rw [strip_cons_of_not_isSpace (hfirst c rfl), List.rdropWhile_eq_self_iff]
    intro hne
    rw [hlast _ (List.getLast?_eq_some_getLast hne)]
    decide

theorem strip_of_forall {t : List Char} (h : ∀ c ∈ t, isSpace c = false) : strip t = t :=
  strip_eq_self (fun c hc => h c (List.mem_of_head? hc)) fun c hc => h c (List.mem_of_getLast? hc)

/-! ### Cuts -/

theorem splitLines_line {l : List Char} (hl : OneLine l) (t : List Char) : splitLines (l ++ '\n' :: t) = l :: splitLines t := by
  induction l with
  | nil =>
    rw [List.nil_append, splitLines, if_neg (fun h => absurd h.1 (by decide)), if_pos (by decide)]
  | cons c l ih =>
    obtain ⟨hc, hl⟩ := List.forall_mem_cons.mp hl
    have hne : ¬ (c = '\r' ∧ (l ++ '\n' :: t).head? = some '\n') := by
      rintro ⟨rfl, -⟩
      exact absurd hc (by decide)
    rw [List.cons_append, splitLines, if_neg hne, if_neg (by simp [hc]), ih hl]

theorem splitLines_oneLine {l : List Char} (hl : OneLine l) (hne : l ≠ []) : splitLines l = [l] := by
  induction l with
  | nil => exact absurd rfl hne
  | cons c l ih =>
    obtain ⟨hc, hl⟩ := List.forall_mem_cons.mp hl
    have hfeed : ¬ (c = '\r' ∧ l.head? = some '\n') := by
      rintro ⟨rfl, -⟩
      exact absurd hc (by decide)
    rw [splitLines, if_neg hfeed, if_neg (by simp [hc])]
    cases l with
    | nil => rfl
    | cons d l => rw [ih hl (List.cons_ne_nil d l)]

theorem splitLines_ne_nil {t : List Char} (h : t ≠ []) : splitLines t ≠ [] := by
  induction t with
  | nil => exact absurd rfl h
  | cons c t ih =>
    rw [splitLines]
    split
    next hfeed =>
      refine ih fun ht => ?_
      rw [ht] at hfeed
      cases hfeed.2
    next =>
      split
      next => exact List.cons_ne_nil _ _
      next => split <;> exact List.cons_ne_nil _ _

/-- A line after a text that ends one is the last line. -/
theorem splitLines_append {t l : List Char} (ht : EndsLine t) (hl : OneLine l) (hne : l ≠ []) :
    splitLines (t ++ l) = splitLines t ++ [l] := by
  induction t with
  | nil => exact splitLines_oneLine hl hne
  | cons c t ih =>
    cases t with
    | nil =>
      have hc : isBoundary c = true := ht c rfl
      have hfeed : ¬ (c = '\r' ∧ l.head? = some '\n') := by
        rintro ⟨-, h⟩
        exact absurd (hl '\n' (List.mem_of_head? h)) (by decide)
      rw [List.singleton_append, splitLines, if_neg hfeed, if_pos hc, splitLines_oneLine hl hne,
        splitLines, if_neg (fun h => absurd h.2 (by simp)), if_pos hc]
      rfl
    | cons d t =>
      have hrest : EndsLine (d :: t) := fun x hx => ht x (by rwa [List.getLast?_cons_cons])
      rw [List.cons_append, splitLines, splitLines, ih hrest, List.cons_append, List.head?_cons, List.head?_cons]
      by_cases hfeed : c = '\r' ∧ some d = some '\n'
      · rw [if_pos hfeed, if_pos hfeed]
      · rw [if_neg hfeed, if_neg hfeed]
        by_cases hc : isBoundary c = true
        · rw [if_pos hc, if_pos hc]
          rfl
        · rw [if_neg hc, if_neg hc]
          cases hlines : splitLines (d :: t) with
          | nil => exact absurd hlines (splitLines_ne_nil (List.cons_ne_nil d t))
          | cons line lines => rfl

end ReleaseValidation.TextLines
