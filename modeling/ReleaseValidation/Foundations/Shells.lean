import Mathlib.Data.List.DropRight
import Mathlib.Logic.Function.Basic

/-! # Shell scripts under `set -e`

Commands call programs, which read the variables, the files and their input and leave files, an output
and a status. The status of a pipeline is that of its last command and the parts of it have
variables of their own; an assignment has the status of the command it substitutes. A script
ends at the first line that fails, but for a failure on the left of `&&`.
-/
namespace ReleaseValidation.Shells
variable {ν φ π : Type}

structure State (ν φ : Type) where
  vars : ν → List Char
  files : φ → List Char

/-- What a program leaves. -/
structure Result (φ : Type) where
  files : φ → List Char
  out : List Char
  err : List Char
  status : ℕ

inductive Command (ν φ π : Type)
  | call (p : π)
  | pipe (c d : Command ν φ π)
  | assign (x : ν) (c : Command ν φ π)
  | redirect (f : φ) (c : Command ν φ π)

/-- The state after a command, and what it prints. -/
structure Outcome (ν φ : Type) where
  state : State ν φ
  out : List Char
  err : List Char
  status : ℕ

inductive Line (ν φ π : Type)
  | plain (c : Command ν φ π)
  | andThen (c d : Command ν φ π)

/-- How far a script has come: the state, all that has been printed, and the status of the last command. -/
structure Run (ν φ : Type) where
  state : State ν φ
  log : List Char
  status : ℕ

/-- What `$(…)` stands for: the output without the newlines at its end. -/
def substituted (out : List Char) : List Char := (out.filter (· ≠ '\x00')).rdropWhile (· == '\n')

section Execution
variable [DecidableEq ν] [DecidableEq φ] (world : π → State ν φ → List Char → Result φ)

def exec : Command ν φ π → State ν φ → List Char → Outcome ν φ
  | .call p, s, input =>
    let r := world p s input
    ⟨⟨s.vars, r.files⟩, r.out, r.err, r.status⟩
  | .pipe c d, s, input =>
    let a := exec c s input
    let b := exec d ⟨s.vars, a.state.files⟩ a.out
    ⟨⟨s.vars, b.state.files⟩, b.out, a.err ++ b.err, b.status⟩
  | .assign x c, s, input =>
    let a := exec c s input
    ⟨⟨Function.update s.vars x (substituted a.out), a.state.files⟩, [], a.err, a.status⟩
  | .redirect f c, s, input =>
    let a := exec c s input
    ⟨⟨a.state.vars, Function.update a.state.files f a.out⟩, [], a.err, a.status⟩

/-- A command on the terminal. -/
def perform (c : Command ν φ π) (r : Run ν φ) : Run ν φ :=
  let a := exec world c r.state []
  ⟨a.state, r.log ++ (a.err ++ a.out), a.status⟩

/-- The run after a line, and whether the script ends there. -/
def Line.exec : Line ν φ π → Run ν φ → Run ν φ × Bool
  | .plain c, r => (perform world c r, (perform world c r).status != 0)
  | .andThen c d, r =>
    if (perform world c r).status = 0 then
      (perform world d (perform world c r), (perform world d (perform world c r)).status != 0)
    else (perform world c r, false)

def runLines : List (Line ν φ π) → Run ν φ → Run ν φ
  | [], r => r
  | l :: ls, r => if (l.exec world r).2 then (l.exec world r).1 else runLines ls (l.exec world r).1

/-- The run after the lines, if none of them ends the script. -/
def through : List (Line ν φ π) → Run ν φ → Option (Run ν φ)
  | [], r => some r
  | l :: ls, r => if (l.exec world r).2 then none else through ls (l.exec world r).1

variable {world} {ls ms : List (Line ν φ π)} {r r' : Run ν φ} {c d : Command ν φ π}

theorem runLines_of_through (h : through world ls r = some r') : runLines world ls r = r' := by
  induction ls generalizing r with
  | nil => exact Option.some.inj h
  | cons l ls ih =>
    rw [through] at h
    rw [runLines]
    split at h
    next => cases h
    next hgoes =>
      rw [if_neg hgoes]
      exact ih h

theorem status_of_ends {l : Line ν φ π} (h : (l.exec world r).2 = true) : (l.exec world r).1.status ≠ 0 := by
  cases l with
  | plain c => exact bne_iff_ne.mp h
  | andThen c d =>
    rw [Line.exec] at h ⊢
    split at h
    next hc =>
      rw [if_pos hc]
      exact bne_iff_ne.mp h
    next => cases h

/-- A script that a line ends has failed. -/
theorem status_of_not_through (h : through world ls r = none) : (runLines world ls r).status ≠ 0 := by
  induction ls generalizing r with
  | nil => cases h
  | cons l ls ih =>
    rw [through] at h
    rw [runLines]
    split at h
    next hends =>
      rw [if_pos hends]
      exact status_of_ends hends
    next hgoes =>
      rw [if_neg hgoes]
      exact ih h

theorem through_append : through world (ls ++ ms) r = (through world ls r).bind (through world ms) := by
  induction ls generalizing r with
  | nil => rfl
  | cons l ls ih =>
    rw [List.cons_append, through, through]
    split
    next => rfl
    next => exact ih

/-! ### Rules -/

/-- The lines get through exactly under `P`, and then to a run with `Q`. -/
structure Guarded (world : π → State ν φ → List Char → Result φ) (ls : List (Line ν φ π)) (r : Run ν φ) (P : Prop)
    (Q : Run ν φ → Prop) : Prop where
  goes : P → ∃ r', through world ls r = some r' ∧ Q r'
  stops : ¬ P → through world ls r = none

variable {P P' : Prop} {Q Q' : Run ν φ → Prop}

theorem guarded_nil : Guarded world [] r True (· = r) := ⟨fun _ => ⟨r, rfl, rfl⟩, fun h => absurd trivial h⟩

theorem guarded_plain (c : Command ν φ π) (r : Run ν φ) :
    Guarded world [.plain c] r ((perform world c r).status = 0) (· = perform world c r) where
  goes h := ⟨_, by rw [through, Line.exec, if_neg (by simp [h]), through], rfl⟩
  stops h := by rw [through, Line.exec, if_pos (by simpa using h)]

/-- The left of `&&` may fail. -/
theorem guarded_andThen (c d : Command ν φ π) (r : Run ν φ) : Guarded world [.andThen c d] r
    ((perform world c r).status = 0 → (perform world d (perform world c r)).status = 0)
    (fun r' => r' = perform world d (perform world c r) ∨ r' = perform world c r) where
  goes h := by
    by_cases hc : (perform world c r).status = 0
    · refine ⟨_, ?_, .inl rfl⟩
      rw [through, Line.exec, if_pos hc, if_neg (by simp [h hc]), through]
    · refine ⟨_, ?_, .inr rfl⟩
      rw [through, Line.exec, if_neg hc, if_neg (by simp), through]
  stops h := by
    obtain ⟨hc, hd⟩ := Classical.not_imp.mp h
    rw [through, Line.exec, if_pos hc, if_pos (by simpa using hd)]

theorem Guarded.imp (h : Guarded world ls r P Q) (hQ : ∀ r', Q r' → Q' r') : Guarded world ls r P Q' where
  goes hP := by
    obtain ⟨r', hr', hq⟩ := h.goes hP
    exact ⟨r', hr', hQ r' hq⟩
  stops := h.stops

theorem Guarded.congr (h : Guarded world ls r P Q) (hP : P ↔ P') : Guarded world ls r P' Q :=
  ⟨fun h' => h.goes (hP.mpr h'), fun h' => h.stops fun hp => h' (hP.mp hp)⟩

/-- The run that the lines get to is that of the script. -/
theorem Guarded.tracked (h : Guarded world ls r P Q) :
    Guarded world ls r P (fun r' => P ∧ r' = runLines world ls r ∧ Q r') where
  goes hP := by
    obtain ⟨r', hr', hq⟩ := h.goes hP
    exact ⟨r', hr', hP, (runLines_of_through hr').symm, hq⟩
  stops := h.stops

theorem Guarded.append (h : Guarded world ls r P Q) (h' : ∀ r', Q r' → Guarded world ms r' P' Q') :
    Guarded world (ls ++ ms) r (P ∧ P') Q' where
  goes hboth := by
    obtain ⟨r', hr', hq⟩ := h.goes hboth.1
    rw [through_append, hr']
    exact (h' r' hq).goes hboth.2
  stops hnot := by
    rw [through_append]
    by_cases hP : P
    · obtain ⟨r', hr', hq⟩ := h.goes hP
      rw [hr']
      exact (h' r' hq).stops fun hP' => hnot ⟨hP, hP'⟩
    · rw [h.stops hP]
      rfl

theorem Guarded.runs (h : Guarded world ls r P Q) (hP : P) : Q (runLines world ls r) := by
  obtain ⟨r', hr', hq⟩ := h.goes hP
  rwa [runLines_of_through hr']

theorem Guarded.fails (h : Guarded world ls r P Q) (hP : ¬ P) : (runLines world ls r).status ≠ 0 :=
  status_of_not_through (h.stops hP)

end Execution
end ReleaseValidation.Shells
