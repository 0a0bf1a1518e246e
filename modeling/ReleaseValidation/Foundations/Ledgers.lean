import ReleaseValidation.Foundations.Programs

/-! # Ledgers

A program may decide how it ends without looking at the state, while what it makes and
removes is written to the state. Its ledger says the error it fails with, if any, and
what it removes and makes. Ledgers are composed as programs are, and a program follows
the ledger that its parts compose to.
-/
namespace ReleaseValidation.Programs
open Program

variable {σ ε α β ρ : Type}

/-- Return the value, or raise the error if there is one. -/
def Exit.of (failure : Option ε) (a : α) : Exit ε α :=
  match failure with
  | none => .returned a
  | some e => .raised e

/-- The error that a fault raises. -/
def Fault.error : Fault ε → Option ε
  | before e | after e => some e
  | stop => none

structure Ledger (ε ρ : Type) where
  failure : Option ε
  removes : ρ → Prop
  makes : ρ → Prop

namespace Ledger

variable {x y : Ledger ε ρ}

def idle (failure : Option ε) : Ledger ε ρ := ⟨failure, fun _ => False, fun _ => False⟩

/-- `y` after `x`, unless `x` fails. -/
def seq (x y : Ledger ε ρ) : Ledger ε ρ where
  failure := x.failure.or y.failure
  removes r := x.removes r ∨ (x.failure = none ∧ y.removes r)
  makes r := (x.makes r ∧ ¬ (x.failure = none ∧ y.removes r)) ∨ (x.failure = none ∧ y.makes r)

/-- `y` after `x`, whether or not `x` fails. -/
def cleanedBy (x y : Ledger ε ρ) : Ledger ε ρ where
  failure := y.failure.or x.failure
  removes r := x.removes r ∨ y.removes r
  makes r := (x.makes r ∧ ¬ y.removes r) ∨ y.makes r

def rethrow (wrap : ε → ε) (x : Ledger ε ρ) : Ledger ε ρ := { x with failure := x.failure.map wrap }

/-- Without the errors that are caught. -/
def recover (catches : ε → Bool) (x : Ledger ε ρ) : Ledger ε ρ :=
  { x with failure := x.failure.filter (fun e => !catches e) }

def when (p : Prop) [Decidable p] (x : Ledger ε ρ) : Ledger ε ρ := if p then x else idle none

/-- Nothing is removed or made other than what `rs` says. -/
def Within (rs : ρ → Prop) (x : Ledger ε ρ) : Prop := ∀ r, x.removes r ∨ x.makes r → rs r

@[simp] theorem idle_failure (f : Option ε) : (idle f : Ledger ε ρ).failure = f := rfl
@[simp] theorem idle_removes (f : Option ε) (r : ρ) : ¬ (idle f : Ledger ε ρ).removes r := id
@[simp] theorem idle_makes (f : Option ε) (r : ρ) : ¬ (idle f : Ledger ε ρ).makes r := id

@[simp] theorem seq_failure : (x.seq y).failure = none ↔ x.failure = none ∧ y.failure = none :=
  Option.or_eq_none_iff

@[simp] theorem rethrow_failure (wrap : ε → ε) : (x.rethrow wrap).failure = none ↔ x.failure = none :=
  Option.map_eq_none_iff

@[simp] theorem recover_failure (catches : ε → Bool) :
    (x.recover catches).failure = none ↔ ∀ e, x.failure = some e → catches e = true := by
  simp [recover, Option.filter_eq_none_iff]

@[simp] theorem when_failure (p : Prop) [Decidable p] : (x.when p).failure = none ↔ (p → x.failure = none) := by
  unfold when
  split <;> simp [*]

@[simp] theorem rethrow_removes (wrap : ε → ε) (r : ρ) : (x.rethrow wrap).removes r ↔ x.removes r := .rfl
@[simp] theorem rethrow_makes (wrap : ε → ε) (r : ρ) : (x.rethrow wrap).makes r ↔ x.makes r := .rfl
@[simp] theorem recover_removes (catches : ε → Bool) (r : ρ) : (x.recover catches).removes r ↔ x.removes r := .rfl
@[simp] theorem recover_makes (catches : ε → Bool) (r : ρ) : (x.recover catches).makes r ↔ x.makes r := .rfl

@[simp] theorem when_removes (p : Prop) [Decidable p] (r : ρ) : (x.when p).removes r ↔ p ∧ x.removes r := by
  unfold when
  split <;> simp [*]

@[simp] theorem when_makes (p : Prop) [Decidable p] (r : ρ) : (x.when p).makes r ↔ p ∧ x.makes r := by
  unfold when
  split <;> simp [*]

theorem seq_removes (r : ρ) : (x.seq y).removes r ↔ x.removes r ∨ (x.failure = none ∧ y.removes r) := .rfl

theorem seq_makes (r : ρ) : (x.seq y).makes r ↔
    (x.makes r ∧ ¬ (x.failure = none ∧ y.removes r)) ∨ (x.failure = none ∧ y.makes r) := .rfl

theorem idle_within (f : Option ε) (P : ρ → Prop) : (idle f : Ledger ε ρ).Within P := by
  rintro r (hr | hr) <;> exact absurd hr id

theorem Within.mono {P Q : ρ → Prop} (hx : x.Within P) (hPQ : ∀ r, P r → Q r) : x.Within Q :=
  fun r hr => hPQ r (hx r hr)

theorem Within.rethrow {P : ρ → Prop} (hx : x.Within P) (wrap : ε → ε) : (x.rethrow wrap).Within P := hx

theorem Within.recover {P : ρ → Prop} (hx : x.Within P) (catches : ε → Bool) : (x.recover catches).Within P := hx

theorem Within.when {P : ρ → Prop} (hx : x.Within P) (p : Prop) [Decidable p] : (x.when p).Within P := by
  rintro r (hr | hr)
  · exact hx r (.inl ((when_removes p r).mp hr).2)
  · exact hx r (.inr ((when_makes p r).mp hr).2)

theorem Within.seq {P : ρ → Prop} (hx : x.Within P) (hy : y.Within P) : (x.seq y).Within P := by
  rintro r ((hr | ⟨_, hr⟩) | (⟨hr, _⟩ | ⟨_, hr⟩))
  · exact hx r (.inl hr)
  · exact hy r (.inl hr)
  · exact hx r (.inr hr)
  · exact hy r (.inr hr)

/-- A later part that touches other things removes nothing of what an earlier part made. -/
theorem Within.seq_makes {P Q : ρ → Prop} (hx : x.Within P) (hy : y.Within Q) (hPQ : ∀ r, P r → ¬ Q r) (r : ρ) :
    (x.seq y).makes r ↔ x.makes r ∨ (x.failure = none ∧ y.makes r) := by
  have hkept : x.makes r → ¬ y.removes r := fun hm hr => hPQ r (hx r (.inr hm)) (hy r (.inl hr))
  rw [Ledger.seq_makes]
  constructor
  · rintro (⟨hm, _⟩ | hm)
    · exact .inl hm
    · exact .inr hm
  · rintro (hm | hm)
    · exact .inl ⟨hm, fun hr => hkept hm hr.2⟩
    · exact .inr hm

end Ledger

open Ledger

/-- `m` fails as its ledger says, or returns `a`; and what holds after it is what held before
and was not removed, and what was made. -/
structure Follows (holds : σ → ρ → Prop) (m : Program σ ε α) (a : α) (x : Ledger ε ρ) : Prop where
  exit : ∀ s, (m s).1 = Exit.of x.failure a
  after : ∀ s r, holds (m s).2 r ↔ (holds s r ∧ ¬ x.removes r) ∨ x.makes r

namespace Follows

variable {holds : σ → ρ → Prop} {x y : Ledger ε ρ}

theorem congr {m : Program σ ε α} {a : α} (h : Follows holds m a x) (hf : x.failure = y.failure)
    (hr : ∀ r, x.removes r ↔ y.removes r) (hm : ∀ r, x.makes r ↔ y.makes r) : Follows holds m a y := by
  constructor
  · intro s
    rw [h.exit, hf]
  · intro s r
    rw [h.after, hr, hm]

protected theorem pure (a : α) : Follows holds (Pure.pure a : Program σ ε α) a (idle none) :=
  ⟨fun _ => rfl, fun s r => by simp⟩

protected theorem raise (e : ε) (a : α) : Follows holds (raise e : Program σ ε α) a (idle (some e)) :=
  ⟨fun _ => rfl, fun s r => by simp⟩

theorem await_exit {fault : Option (Fault ε)} (hstop : fault ≠ some .stop) {op : Program σ ε α} {a : α}
    (hop : ∀ s, (op s).1 = .returned a) (s : σ) :
    (await fault op s).1 = Exit.of (fault.bind Fault.error) a := by
  cases fault with
  | none => exact hop s
  | some x =>
    cases x with
    | before e => rfl
    | stop => exact absurd rfl hstop
    | after e =>
      have hs := hop s
      cases he : op s with
      | mk y t =>
        rw [he] at hs
        cases hs
        rw [await_after he]
        rfl

theorem await {fault : Option (Fault ε)} (hstop : fault ≠ some .stop) {op : Program σ ε α} {a : α}
    (hop : Follows holds op a x) (hx : x.failure = none) :
    Follows holds (await fault op) a
      ⟨fault.bind Fault.error, fun r => x.removes r ∧ Effective fault, fun r => x.makes r ∧ Effective fault⟩ := by
  constructor
  · apply await_exit hstop
    intro s
    rw [hop.exit, hx]
    rfl
  · intro s r
    rw [await_state]
    by_cases h : Effective fault
    · simp [h, hop.after]
    · simp [h]

theorem write_make {f : σ → σ} {P : ρ → Prop} (hf : ∀ s r, holds (f s) r ↔ holds s r ∨ P r) :
    Follows holds (write f : Program σ ε Unit) () ⟨none, fun _ => False, P⟩ :=
  ⟨fun _ => rfl, fun s r => by simp [hf]⟩

theorem write_remove {f : σ → σ} {P : ρ → Prop} (hf : ∀ s r, holds (f s) r ↔ holds s r ∧ ¬ P r) :
    Follows holds (write f : Program σ ε Unit) () ⟨none, P, fun _ => False⟩ :=
  ⟨fun _ => rfl, fun s r => by simp [hf]⟩

protected theorem bind {m : Program σ ε α} {k : α → Program σ ε β} {a : α} {b : β}
    (hm : Follows holds m a x) (hk : Follows holds (k a) b y) : Follows holds (m >>= k) b (x.seq y) := by
  have hends : ∀ s, ((m >>= k) s).1 = Exit.of (x.seq y).failure b ∧
      ∀ r, holds ((m >>= k) s).2 r ↔ (holds s r ∧ ¬ (x.seq y).removes r) ∨ (x.seq y).makes r := by
    intro s
    have hexit := hm.exit s
    have hafter := hm.after s
    cases he : m s with
    | mk e t =>
      rw [he] at hexit hafter
      cases hf : x.failure with
      | some e =>
        rw [hf] at hexit
        cases hexit
        rw [bind_raised he]
        simp only [seq, hf, hafter]
        exact ⟨rfl, fun r => by simp⟩
      | none =>
        rw [hf] at hexit
        cases hexit
        rw [bind_returned he]
        simp only [seq, hf, hk.exit, hk.after, hafter]
        exact ⟨rfl, fun r => by simp [or_and_right, and_assoc, or_assoc]⟩
  exact ⟨fun s => (hends s).1, fun s => (hends s).2⟩

protected theorem seq {m : Program σ ε α} {n : Program σ ε β} {a : α} {b : β}
    (hm : Follows holds m a x) (hn : Follows holds n b y) : Follows holds (m >>= fun _ => n) b (x.seq y) :=
  Follows.bind (k := fun _ => n) hm hn

protected theorem rethrow {m : Program σ ε α} {a : α} (hm : Follows holds m a x) (wrap : ε → ε) :
    Follows holds (tryExcept m (fun _ => true) (fun e => raise (wrap e))) a (x.rethrow wrap) := by
  have hstate : ∀ s, (tryExcept m (fun _ => true) (fun e => raise (wrap e)) s).2 = (m s).2 :=
    tryExcept_rel (R := Frame.fixing id) (fun e => keeps_raise (wrap e))
  constructor
  · intro s
    have hexit := hm.exit s
    cases he : m s with
    | mk e t =>
      rw [he] at hexit
      cases hf : x.failure with
      | none =>
        rw [hf] at hexit
        cases hexit
        rw [tryExcept_returned he, Ledger.rethrow, hf]
        rfl
      | some e =>
        rw [hf] at hexit
        cases hexit
        rw [tryExcept_caught he rfl, Ledger.rethrow, hf]
        rfl
  · intro s r
    rw [hstate]
    exact hm.after s r

protected theorem recover {m : Program σ ε α} {a : α} (hm : Follows holds m a x) (catches : ε → Bool) (b : α) :
    Follows holds (tryExcept m catches (fun _ => Pure.pure b)) (if x.failure = none then a else b)
      (x.recover catches) := by
  have hstate : ∀ s, (tryExcept m catches (fun _ => Pure.pure b) s).2 = (m s).2 :=
    tryExcept_rel (R := Frame.fixing id) (fun _ => keeps_pure b)
  constructor
  · intro s
    have hexit := hm.exit s
    cases he : m s with
    | mk e t =>
      rw [he] at hexit
      cases hf : x.failure with
      | none =>
        rw [hf] at hexit
        cases hexit
        rw [tryExcept_returned he, Ledger.recover, hf]
        rfl
      | some e =>
        rw [hf] at hexit
        cases hexit
        cases hc : catches e with
        | true => rw [tryExcept_caught he hc]; simp [Ledger.recover, Option.filter_some, hf, hc, Exit.of]
        | false => rw [tryExcept_passed he hc]; simp [Ledger.recover, Option.filter_some, hf, hc, Exit.of]
  · intro s r
    rw [hstate]
    exact hm.after s r

protected theorem tryFinally {m : Program σ ε α} {c : Program σ ε Unit} {a : α} (hm : Follows holds m a x)
    (hc : Follows holds c () y) : Follows holds (tryFinally m c) a (x.cleanedBy y) := by
  have hends : ∀ s, (tryFinally m c s).1 = Exit.of (x.cleanedBy y).failure a ∧
      (tryFinally m c s).2 = (c (m s).2).2 := by
    intro s
    have hexit := hm.exit s
    unfold Program.tryFinally cleanedBy
    cases he : m s with
    | mk e t =>
      rw [he] at hexit
      have hcexit := hc.exit t
      cases hce : c t with
      | mk e' u =>
        rw [hce] at hcexit
        cases hf : x.failure with
        | none | some =>
          cases hf' : y.failure with
          | none | some =>
            rw [hf] at hexit
            rw [hf'] at hcexit
            cases hexit
            cases hcexit
            simp only [hce]
            exact ⟨rfl, trivial⟩
  constructor
  · intro s
    exact (hends s).1
  · intro s r
    rw [(hends s).2, hc.after, hm.after]
    simp [cleanedBy, or_and_right, and_assoc, or_assoc]

protected theorem when {p : Prop} [Decidable p] {m : Program σ ε Unit} (hm : Follows holds m () x) :
    Follows holds (when p m) () (x.when p) := by
  by_cases h : p
  · rw [when_pos h, Ledger.when, if_pos h]
    exact hm
  · rw [Ledger.when, if_neg h, Program.when, if_neg h]
    exact Follows.pure ()

theorem from_nothing {m : Program σ ε α} {a : α} (hm : Follows holds m a x) {s : σ} (hs : ∀ r, ¬ holds s r)
    (r : ρ) : holds (m s).2 r ↔ x.makes r := by
  rw [hm.after]
  simp [hs r]

end Follows

end ReleaseValidation.Programs
