import Mathlib.Data.Nat.Notation
import Mathlib.Logic.Basic

/-! # Programs with exceptions, clean-up blocks and interruptions

A program reads and writes a state and ends in one of three ways: it returns, it
raises, or the process running it stops. A raised error is caught by an enclosing
handler that accepts it and passes through every enclosing clean-up block; a stop
is seen by neither. Awaited operations take a fault, which says whether and how
the operation is interrupted.
-/
namespace ReleaseValidation.Programs

inductive Exit (ε α : Type)
  | returned (value : α)
  | raised (error : ε)
  | stopped
  deriving DecidableEq, Repr

def Exit.ofExcept {ε α : Type} : Except ε α → Exit ε α
  | .ok a => .returned a
  | .error e => .raised e

def Program (σ ε α : Type) := σ → Exit ε α × σ

variable {σ ε α β : Type}

namespace Program

protected def pure (a : α) : Program σ ε α := fun s => (.returned a, s)

protected def bind (m : Program σ ε α) (f : α → Program σ ε β) : Program σ ε β := fun s =>
  match m s with
  | (.returned a, t) => f a t
  | (.raised e, t) => (.raised e, t)
  | (.stopped, t) => (.stopped, t)

instance : Monad (Program σ ε) where
  pure := Program.pure
  bind := Program.bind

def raise (e : ε) : Program σ ε α := fun s => (.raised e, s)
def halt : Program σ ε α := fun s => (.stopped, s)
def read (f : σ → α) : Program σ ε α := fun s => (.returned (f s), s)
def write (f : σ → σ) : Program σ ε Unit := fun s => (.returned (), f s)

def ofExcept : Except ε α → Program σ ε α
  | .ok a => Program.pure a
  | .error e => raise e

/-- `try: m  except: handler e`, for the errors that `catches` accepts. -/
def tryExcept (m : Program σ ε α) (catches : ε → Bool) (handler : ε → Program σ ε α) :
    Program σ ε α := fun s =>
  match m s with
  | (.raised e, t) => if catches e then handler e t else (.raised e, t)
  | r => r

/-- `try: m  finally: cleanup`. An error of the clean-up replaces the way `m` ended. -/
def tryFinally (m : Program σ ε α) (cleanup : Program σ ε Unit) : Program σ ε α := fun s =>
  match m s with
  | (.stopped, t) => (.stopped, t)
  | (x, t) =>
    match cleanup t with
    | (.returned _, u) => (x, u)
    | (.raised e, u) => (.raised e, u)
    | (.stopped, u) => (.stopped, u)

/-- `if p: m`. -/
def when (p : Prop) [Decidable p] (m : Program σ ε Unit) : Program σ ε Unit :=
  if p then m else Program.pure ()

/-- `for i in range(start, start + count)`, left early by a body that answers. -/
def forRange (body : ℕ → Program σ ε (Option α)) : ℕ → ℕ → Program σ ε (Option α)
  | _, 0 => Program.pure none
  | i, n + 1 => Program.bind (body i) fun
    | some a => Program.pure (some a)
    | none => forRange body (i + 1) n

@[simp] theorem pure_apply (a : α) (s : σ) : (Pure.pure a : Program σ ε α) s = (.returned a, s) := rfl
@[simp] theorem raise_apply (e : ε) (s : σ) : (raise e : Program σ ε α) s = (.raised e, s) := rfl
@[simp] theorem halt_apply (s : σ) : (halt : Program σ ε α) s = (.stopped, s) := rfl
@[simp] theorem read_apply (f : σ → α) (s : σ) : (read f : Program σ ε α) s = (.returned (f s), s) := rfl
@[simp] theorem write_apply (f : σ → σ) (s : σ) : (write f : Program σ ε Unit) s = (.returned (), f s) := rfl

@[simp] theorem ofExcept_ok (a : α) (s : σ) : (ofExcept (.ok a) : Program σ ε α) s = (.returned a, s) := rfl
@[simp] theorem ofExcept_error (e : ε) (s : σ) :
    (ofExcept (.error e) : Program σ ε α) s = (.raised e, s) := rfl

theorem when_pos {p : Prop} [Decidable p] (h : p) (m : Program σ ε Unit) : when p m = m := if_pos h

theorem when_neg {p : Prop} [Decidable p] (h : ¬ p) (m : Program σ ε Unit) (s : σ) :
    when p m s = (.returned (), s) := by
  rw [when, if_neg h]
  rfl

theorem bind_returned {m : Program σ ε α} {f : α → Program σ ε β} {s t : σ} {a : α}
    (h : m s = (.returned a, t)) : (m >>= f) s = f a t := by
  change Program.bind m f s = _
  rw [Program.bind, h]

theorem bind_raised {m : Program σ ε α} {f : α → Program σ ε β} {s t : σ} {e : ε}
    (h : m s = (.raised e, t)) : (m >>= f) s = (.raised e, t) := by
  change Program.bind m f s = _
  rw [Program.bind, h]

theorem bind_stopped {m : Program σ ε α} {f : α → Program σ ε β} {s t : σ}
    (h : m s = (.stopped, t)) : (m >>= f) s = (.stopped, t) := by
  change Program.bind m f s = _
  rw [Program.bind, h]

/-- A program returns when its first part does and what follows returns from there. -/
theorem bind_returned_iff {m : Program σ ε α} {f : α → Program σ ε β} {s u : σ} {b : β} :
    (m >>= f) s = (.returned b, u) ↔ ∃ a t, m s = (.returned a, t) ∧ f a t = (.returned b, u) := by
  constructor
  · intro h
    cases hm : m s with
    | mk x t =>
      cases x with
      | returned a => exact ⟨a, t, rfl, (bind_returned hm).symm.trans h⟩
      | raised e => cases (bind_raised hm).symm.trans h
      | stopped => cases (bind_stopped hm).symm.trans h
  · rintro ⟨a, t, hm, hf⟩
    rw [bind_returned hm, hf]

theorem ofExcept_returned_iff {x : Except ε α} {s t : σ} {a : α} :
    ofExcept x s = (.returned a, t) ↔ x = .ok a ∧ t = s := by
  cases x with
  | error e => simp
  | ok b => simp [eq_comm]

theorem ofExcept_bind_returned_iff {x : Except ε α} {f : α → Program σ ε β} {s t : σ} {b : β} :
    (ofExcept x >>= f) s = (.returned b, t) ↔ ∃ a, x = .ok a ∧ f a s = (.returned b, t) := by
  rw [bind_returned_iff]
  constructor
  · rintro ⟨a, u, ha, hf⟩
    obtain ⟨hx, rfl⟩ := ofExcept_returned_iff.mp ha
    exact ⟨a, hx, hf⟩
  · rintro ⟨a, ha, hf⟩
    exact ⟨a, s, ofExcept_returned_iff.mpr ⟨ha, rfl⟩, hf⟩

/-- What follows a program that does not return is never run. -/
theorem bind_state {m : Program σ ε α} {f : α → Program σ ε β} {s : σ}
    (h : ∀ a, (m s).1 ≠ .returned a) : ((m >>= f) s).2 = (m s).2 := by
  cases he : m s with
  | mk x t =>
    rw [he] at h
    cases x with
    | returned a => exact absurd rfl (h a)
    | raised e => rw [bind_raised he]
    | stopped => rw [bind_stopped he]

theorem bind_not_returned {m : Program σ ε α} {f : α → Program σ ε β} {s : σ}
    (h : ∀ a, (m s).1 ≠ .returned a) (b : β) : ((m >>= f) s).1 ≠ .returned b := by
  cases he : m s with
  | mk x t =>
    rw [he] at h
    cases x with
    | returned a => exact absurd rfl (h a)
    | raised e => rw [bind_raised he]; nofun
    | stopped => rw [bind_stopped he]; nofun

theorem bind_avoids {m : Program σ ε α} {f : α → Program σ ε β} {b : β}
    (h : ∀ a t, (f a t).1 ≠ .returned b) (s : σ) : ((m >>= f) s).1 ≠ .returned b := by
  cases he : m s with
  | mk x t =>
    cases x with
    | returned a => rw [bind_returned he]; exact h a t
    | raised e => rw [bind_raised he]; nofun
    | stopped => rw [bind_stopped he]; nofun

theorem tryExcept_returned {m : Program σ ε α} {catches : ε → Bool} {handler : ε → Program σ ε α}
    {s t : σ} {a : α} (h : m s = (.returned a, t)) :
    tryExcept m catches handler s = (.returned a, t) := by simp only [tryExcept, h]

theorem tryExcept_caught {m : Program σ ε α} {catches : ε → Bool} {handler : ε → Program σ ε α}
    {s t : σ} {e : ε} (h : m s = (.raised e, t)) (hc : catches e = true) :
    tryExcept m catches handler s = handler e t := by simp only [tryExcept, h, hc, ↓reduceIte]

theorem tryExcept_passed {m : Program σ ε α} {catches : ε → Bool} {handler : ε → Program σ ε α}
    {s t : σ} {e : ε} (h : m s = (.raised e, t)) (hc : catches e = false) :
    tryExcept m catches handler s = (.raised e, t) := by
  simp only [tryExcept, h, hc, Bool.false_eq_true, ↓reduceIte]

/-- The clean-up block decides the final state of every block that does not stop. -/
theorem tryFinally_state {m : Program σ ε α} {cleanup : Program σ ε Unit} {s : σ}
    (h : (m s).1 ≠ .stopped) : (tryFinally m cleanup s).2 = (cleanup (m s).2).2 := by
  unfold tryFinally
  cases hm : m s with
  | mk x t =>
    cases x with
    | stopped => simp [hm] at h
    | returned a => cases hc : cleanup t with | mk y u => cases y <;> simp only [hc]
    | raised e => cases hc : cleanup t with | mk y u => cases y <;> simp only [hc]

theorem tryFinally_not_stopped {m : Program σ ε α} {cleanup : Program σ ε Unit} {s : σ}
    (h : (tryFinally m cleanup s).1 ≠ .stopped) :
    (m s).1 ≠ .stopped ∧ (cleanup (m s).2).1 ≠ .stopped := by
  unfold tryFinally at h
  cases hm : m s with
  | mk x t =>
    rw [hm] at h
    cases x with
    | stopped => exact absurd rfl h
    | returned a | raised e =>
      refine ⟨nofun, fun hc => h ?_⟩
      change (cleanup t).1 = .stopped at hc
      cases hct : cleanup t with
      | mk y u =>
        rw [hct] at hc
        cases hc
        simp only [hct]

theorem tryFinally_stopped {m : Program σ ε α} {cleanup : Program σ ε Unit} {s t : σ}
    (h : m s = (.stopped, t)) : tryFinally m cleanup s = (.stopped, t) := by
  simp only [tryFinally, h]

end Program

theorem except_bind_ok {x : Except ε α} {f : α → Except ε β} {b : β} (h : (x >>= f) = .ok b) :
    ∃ a, x = .ok a ∧ f a = .ok b := by
  cases x with
  | error e => cases h
  | ok a => exact ⟨a, rfl, h⟩

theorem except_bind_ok_iff {x : Except ε α} {f : α → Except ε β} {b : β} :
    (x >>= f) = .ok b ↔ ∃ a, x = .ok a ∧ f a = .ok b := by
  refine ⟨except_bind_ok, ?_⟩
  rintro ⟨a, rfl, hb⟩
  exact hb

/-- An exception with its text, or the `CancelledError` of a cancelled task, which
`except Exception` does not catch. -/
inductive Err
  | exception (text : String)
  | cancelled
  deriving DecidableEq, Repr

namespace Err

def isException : Err → Bool
  | exception _ => true
  | cancelled => false

def text : Err → String
  | exception t => t
  | cancelled => ""

end Err

open Program

/-- How an awaited operation is interrupted: before it takes effect, after it took
effect but before its caller learns of it, or by the end of the process. -/
inductive Fault (ε : Type)
  | before (error : ε)
  | after (error : ε)
  | stop
  deriving DecidableEq, Repr

/-- How a task ends that awaits an operation under the fault. -/
def Fault.exit : Fault ε → Exit ε α
  | before e | after e => .raised e
  | stop => .stopped

/-- Await `op` under the given fault. -/
def await (fault : Option (Fault ε)) (op : Program σ ε α) : Program σ ε α :=
  match fault with
  | none => op
  | some (.before e) => raise e
  | some (.after e) => Program.bind op (fun _ => raise e)
  | some .stop => halt

/-- The operation takes effect: it is not interrupted before. -/
def Effective (fault : Option (Fault ε)) : Prop := fault = none ∨ ∃ e, fault = some (.after e)

instance (fault : Option (Fault ε)) : Decidable (Effective fault) :=
  match fault with
  | none => isTrue (.inl rfl)
  | some (.after e) => isTrue (.inr ⟨e, rfl⟩)
  | some (.before _) => isFalse (by rintro (h | ⟨_, h⟩) <;> cases h)
  | some .stop => isFalse (by rintro (h | ⟨_, h⟩) <;> cases h)

@[simp] theorem effective_none : Effective (none : Option (Fault ε)) := .inl rfl
@[simp] theorem effective_after (e : ε) : Effective (some (Fault.after e)) := .inr ⟨e, rfl⟩

@[simp] theorem not_effective_before (e : ε) : ¬ Effective (some (Fault.before e)) := by
  rintro (h | ⟨_, h⟩) <;> cases h

@[simp] theorem not_effective_stop : ¬ Effective (some Fault.stop : Option (Fault ε)) := by
  rintro (h | ⟨_, h⟩) <;> cases h

@[simp] theorem await_none (op : Program σ ε α) : await none op = op := rfl
@[simp] theorem await_before (e : ε) (op : Program σ ε α) : await (some (.before e)) op = raise e := rfl
@[simp] theorem await_stop (op : Program σ ε α) : await (some .stop) op = halt := rfl
theorem await_after {e : ε} {op : Program σ ε α} {s t : σ} {a : α} (h : op s = (.returned a, t)) :
    await (some (.after e)) op s = (.raised e, t) := by simp only [await, Program.bind, h, raise]

/-- An awaited operation changes the state when it takes effect. -/
theorem await_state (fault : Option (Fault ε)) (op : Program σ ε α) (s : σ) :
    (await fault op s).2 = if Effective fault then (op s).2 else s := by
  cases fault with
  | none => simp
  | some f =>
    cases f with
    | before e => simp
    | stop => simp
    | after e => cases he : op s with | mk x t => cases x <;> simp [await, Program.bind, he, raise]

theorem await_pure (f : Fault ε) (a : α) (s : σ) :
    await (some f) (Pure.pure a : Program σ ε α) s = (f.exit, s) := by
  cases f <;> rfl

theorem await_not_returned {fault : Option (Fault ε)} (h : fault ≠ none) (op : Program σ ε α) (s : σ)
    (a : α) : (await fault op s).1 ≠ .returned a := by
  cases fault with
  | none => exact absurd rfl h
  | some f =>
    cases f with
    | before e => nofun
    | stop => nofun
    | after e =>
      cases he : op s with
      | mk x t => cases x <;> simp [await, Program.bind, he, raise]

/-- Under a fault, an awaited operation ends the sequence that it begins. -/
theorem await_bind_state {fault : Option (Fault ε)} (h : fault ≠ none) (op : Program σ ε α)
    (rest : α → Program σ ε β) (s : σ) : ((await fault op >>= rest) s).2 = (await fault op s).2 :=
  bind_state (await_not_returned h op s)

theorem await_pure_state (fault : Option (Fault ε)) (a : α) (s : σ) :
    (await fault (Pure.pure a : Program σ ε α) s).2 = s := by
  cases fault with
  | none => rfl
  | some f => rw [await_pure]

/-- `try: return await op  except Exception: return fallback`, for an `op` that reads `answer`. -/
def swallow (fault : Option (Fault Err)) (answer fallback : α) : Program σ Err α :=
  tryExcept (await fault (Pure.pure answer)) Err.isException (fun _ => Pure.pure fallback)

/-- How `swallow` ends. -/
def answered (fault : Option (Fault Err)) (answer fallback : α) : Exit Err α :=
  match fault with
  | none => .returned answer
  | some (.before e) | some (.after e) => if e.isException then .returned fallback else .raised e
  | some .stop => .stopped

theorem swallow_apply (fault : Option (Fault Err)) (answer fallback : α) (s : σ) :
    (swallow fault answer fallback : Program σ Err α) s = (answered fault answer fallback, s) := by
  cases fault with
  | none => rfl
  | some f =>
    cases f with
    | before e | after e => cases e <;> rfl
    | stop => rfl

/-- A reflexive and transitive relation between the states before and after. -/
structure Frame (σ : Type) where
  rel : σ → σ → Prop
  refl : ∀ s, rel s s
  trans : ∀ {s t u}, rel s t → rel t u → rel s u

/-- The frame that leaves an observation of the state unchanged. -/
def Frame.fixing (f : σ → β) : Frame σ where
  rel s t := f t = f s
  refl _ := rfl
  trans hst htu := htu.trans hst

/-- The program only changes the state as the frame allows, however it ends. -/
def Keeps (R : Frame σ) (m : Program σ ε α) : Prop := ∀ s, R.rel s (m s).2

section Frames
variable {R : Frame σ}

theorem keeps_pure (a : α) : Keeps R (Pure.pure a : Program σ ε α) := R.refl
theorem keeps_raise (e : ε) : Keeps R (raise e : Program σ ε α) := R.refl
theorem keeps_halt : Keeps R (halt : Program σ ε α) := R.refl
theorem keeps_read (f : σ → α) : Keeps R (read f : Program σ ε α) := R.refl
theorem keeps_write {f : σ → σ} (h : ∀ s, R.rel s (f s)) : Keeps R (write f : Program σ ε Unit) := h

theorem keeps_ofExcept (x : Except ε α) : Keeps R (ofExcept x) := by
  cases x with
  | error e => exact keeps_raise e
  | ok a => exact keeps_pure a

theorem keeps_ofExcept_bind {x : Except ε α} {f : α → Program σ ε β} (h : ∀ a, x = .ok a → Keeps R (f a)) :
    Keeps R (ofExcept x >>= f) := by
  cases x with
  | error e => exact keeps_raise e
  | ok a => exact h a rfl

theorem bind_rel {m : Program σ ε α} {f : α → Program σ ε β} (hf : ∀ a, Keeps R (f a)) (s : σ) :
    R.rel (m s).2 ((m >>= f) s).2 := by
  cases he : m s with
  | mk x t =>
    cases x with
    | returned a => rw [bind_returned he]; exact hf a t
    | raised e => rw [bind_raised he]; exact R.refl t
    | stopped => rw [bind_stopped he]; exact R.refl t

theorem Keeps.bind {m : Program σ ε α} {f : α → Program σ ε β} (hm : Keeps R m)
    (hf : ∀ a, Keeps R (f a)) : Keeps R (m >>= f) := fun s => R.trans (hm s) (bind_rel hf s)

theorem Keeps.await {op : Program σ ε α} (h : Keeps R op) (fault : Option (Fault ε)) :
    Keeps R (await fault op) := by
  cases fault with
  | none => exact h
  | some f =>
    cases f with
    | before e => exact keeps_raise e
    | after e => exact h.bind (fun _ => keeps_raise e)
    | stop => exact keeps_halt

theorem tryExcept_rel {m : Program σ ε α} {catches : ε → Bool} {handler : ε → Program σ ε α}
    (hh : ∀ e, Keeps R (handler e)) (s : σ) : R.rel (m s).2 (Program.tryExcept m catches handler s).2 := by
  cases he : m s with
  | mk x t =>
    cases x with
    | returned a => rw [tryExcept_returned he]; exact R.refl t
    | stopped => simpa only [Program.tryExcept, he] using R.refl t
    | raised e =>
      cases hc : catches e with
      | true => rw [tryExcept_caught he hc]; exact hh e t
      | false => rw [tryExcept_passed he hc]; exact R.refl t

theorem Keeps.tryExcept {m : Program σ ε α} {catches : ε → Bool} {handler : ε → Program σ ε α}
    (hm : Keeps R m) (hh : ∀ e, Keeps R (handler e)) : Keeps R (tryExcept m catches handler) :=
  fun s => R.trans (hm s) (tryExcept_rel hh s)

theorem Keeps.tryFinally {m : Program σ ε α} {cleanup : Program σ ε Unit} (hm : Keeps R m)
    (hc : Keeps R cleanup) : Keeps R (tryFinally m cleanup) := by
  intro s
  by_cases h : (m s).1 = .stopped
  · have he : m s = (.stopped, (m s).2) := Prod.ext h rfl
    rw [tryFinally_stopped he]
    exact hm s
  · rw [tryFinally_state h]
    exact R.trans (hm s) (hc _)

theorem Keeps.ite {p : Prop} [Decidable p] {m n : Program σ ε α} (hm : Keeps R m) (hn : Keeps R n) :
    Keeps R (if p then m else n) := by
  split
  · exact hm
  · exact hn

theorem Keeps.when {p : Prop} [Decidable p] {m : Program σ ε Unit} (h : Keeps R m) :
    Keeps R (Program.when p m) := Keeps.ite h (keeps_pure ())

theorem Keeps.forRange {body : ℕ → Program σ ε (Option α)} (hb : ∀ i, Keeps R (body i)) (i n : ℕ) :
    Keeps R (forRange body i n) := by
  induction n generalizing i with
  | zero => exact keeps_pure none
  | succ n ih =>
    refine (hb i).bind (fun r => ?_)
    cases r with
    | none => exact ih (i + 1)
    | some a => exact keeps_pure (some a)

end Frames

end ReleaseValidation.Programs
