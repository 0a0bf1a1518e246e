import Mathlib.Data.List.Basic
import ReleaseValidation.Foundations.Programs

/-! # Polling loops

A loop makes one round after another until a round leaves it or the clock says that it is
late. What it meets from outside (the clock, the answers to its requests) is a list of events,
one for each turn. The loop may go on after a list of events, in which case it has no result.
-/
namespace ReleaseValidation.Polls
open Programs Program

inductive Round (σ α : Type)
  | leave (a : α)
  | again (s : σ)

variable {σ α ι : Type}

section Loop
variable (late : ι → Bool) (round : σ → ι → Round σ α) (timedOut : σ → α)

def poll : σ → List ι → Option α
  | _, [] => none
  | s, e :: es =>
    if late e then some (timedOut s)
    else
      match round s e with
      | .leave a => some a
      | .again s' => poll s' es

/-- The state after rounds of which none leaves the loop and none is late. -/
def rounds : σ → List ι → Option σ
  | s, [] => some s
  | s, e :: es =>
    if late e then none
    else
      match round s e with
      | .leave _ => none
      | .again s' => rounds s' es

variable {late round timedOut} {s s' : σ} {e : ι} {es pre : List ι} {a : α}

theorem rounds_cons : rounds late round s (e :: es) = some s' ↔
    late e = false ∧ ∃ t, round s e = .again t ∧ rounds late round t es = some s' := by
  rw [rounds]
  cases late e with
  | true => simp
  | false =>
    cases round s e with
    | leave a => simp
    | again t => simp

/-- A loop ends at the first event that is late or whose round leaves it. -/
theorem poll_eq_some_iff : poll late round timedOut s es = some a ↔
    ∃ pre e post t, es = pre ++ e :: post ∧ rounds late round s pre = some t ∧
      (late e = true ∧ a = timedOut t ∨ late e = false ∧ round t e = .leave a) := by
  induction es generalizing s with
  | nil => simp [poll]
  | cons e es ih =>
    constructor
    · intro h
      rw [poll] at h
      split at h
      next he => exact ⟨[], e, es, s, rfl, rfl, Or.inl ⟨he, (Option.some.inj h).symm⟩⟩
      next he =>
        have he : late e = false := Bool.eq_false_iff.mpr he
        cases hr : round s e with
        | leave b =>
          rw [hr] at h
          cases h
          exact ⟨[], e, es, s, rfl, rfl, Or.inr ⟨he, hr⟩⟩
        | again u =>
          rw [hr] at h
          obtain ⟨pre, e', post, t, rfl, ht, hend⟩ := ih.mp h
          exact ⟨e :: pre, e', post, t, rfl, rounds_cons.mpr ⟨he, u, hr, ht⟩, hend⟩
    · rintro ⟨pre, e', post, t, hes, ht, hend⟩
      rw [poll]
      cases pre with
      | nil =>
        cases hes
        cases ht
        rcases hend with ⟨he, rfl⟩ | ⟨he, hr⟩
        · rw [he]
          rfl
        · rw [he, hr]
          rfl
      | cons d pre =>
        cases hes
        obtain ⟨he, u, hr, ht⟩ := rounds_cons.mp ht
        rw [he, hr]
        exact ih.mpr ⟨pre, e', post, t, rfl, ht, hend⟩

section Waiting
variable {last : ι → Bool} {result : ι → α}

theorem rounds_wait_iff : rounds late (fun s e => if last e then .leave (result e) else .again s) s es = some s' ↔
    s' = s ∧ ∀ d ∈ es, late d = false ∧ last d = false := by
  induction es with
  | nil => simp only [rounds, Option.some.injEq, List.not_mem_nil, false_implies, implies_true, and_true, eq_comm]
  | cons e es ih =>
    rw [rounds_cons]
    cases hlast : last e with
    | true => simp [hlast]
    | false => simp [hlast, ih, and_left_comm]

/-- A loop that only waits for an event ends at the first one that is late or the one that it waits for. -/
theorem poll_wait_iff :
    poll late (fun s e => if last e then .leave (result e) else .again s) timedOut s es = some a ↔
      ∃ pre e post, es = pre ++ e :: post ∧ (∀ d ∈ pre, late d = false ∧ last d = false) ∧
        (late e = true ∧ a = timedOut s ∨ late e = false ∧ last e = true ∧ a = result e) := by
  have hleave : ∀ (t : σ) e, (if last e then Round.leave (result e) else .again t) = .leave a ↔
      last e = true ∧ a = result e := by
    intro t e
    cases last e <;> simp [eq_comm]
  rw [poll_eq_some_iff]
  constructor
  · rintro ⟨pre, e, post, t, hes, ht, hend⟩
    obtain ⟨rfl, hpre⟩ := rounds_wait_iff.mp ht
    exact ⟨pre, e, post, hes, hpre, hend.imp_right (And.imp_right (hleave t e).mp)⟩
  · rintro ⟨pre, e, post, hes, hpre, hend⟩
    exact ⟨pre, e, post, s, hes, rounds_wait_iff.mpr ⟨rfl, hpre⟩, hend.imp_right (And.imp_right (hleave s e).mpr)⟩

end Waiting

theorem poll_map {κ : Type} (g : κ → ι) (ks : List κ) :
    poll late round timedOut s (ks.map g) = poll (late ∘ g) (fun t k => round t (g k)) timedOut s ks := by
  induction ks generalizing s with
  | nil => rfl
  | cons k ks ih =>
    rw [List.map_cons, poll, poll, Function.comp_apply]
    split
    next => rfl
    next =>
      cases round s (g k) with
      | leave a => rfl
      | again t => exact ih

/-- What each round keeps, of the events so far and the state, all of them keep. -/
theorem rounds_induction {I : List ι → σ → Prop} (hstart : I [] s)
    (hstep : ∀ pre t e u, I pre t → late e = false → round t e = .again u → I (pre ++ [e]) u)
    (h : rounds late round s es = some s') : I es s' := by
  have hgen : ∀ pre t, I pre t → rounds late round t es = some s' → I (pre ++ es) s' := by
    clear h hstart
    induction es with
    | nil =>
      intro pre t ht h
      cases h
      rwa [List.append_nil]
    | cons e es ih =>
      intro pre t ht h
      obtain ⟨he, u, hu, h⟩ := rounds_cons.mp h
      have hnext := ih (pre ++ [e]) u (hstep pre t e u ht he hu) h
      rwa [List.append_assoc, List.singleton_append] at hnext
  exact hgen [] s hstart h

end Loop

/-! ### Rounds whose events decide when to leave -/

section Made
variable (late leaves : ι → Bool)

/-- The events whose rounds are made, when the event alone decides whether its round leaves the loop. -/
def made : List ι → List ι
  | [] => []
  | e :: es => if late e then [] else if leaves e then [e] else e :: made es

variable {late leaves} {round : σ → ι → Round σ α} {timedOut : σ → α} {s t : σ} {e : ι} {es : List ι} {a : α}

theorem made_cons_late (h : late e = true) : made late leaves (e :: es) = [] := by rw [made, if_pos h]

theorem made_cons_leaves (h : late e = false) (hl : leaves e = true) : made late leaves (e :: es) = [e] := by
  rw [made, h, hl]
  rfl

theorem made_cons_again (h : late e = false) (hl : leaves e = false) :
    made late leaves (e :: es) = e :: made late leaves es := by
  rw [made, h, hl]
  rfl

/-- A loop ends in the round of its last made event, if that leaves it, and late otherwise. -/
theorem poll_eq_some_iff_made (hleave : ∀ t e, leaves e = true → ∃ a, round t e = .leave a)
    (hagain : ∀ t e, leaves e = false → ∃ u, round t e = .again u) :
    poll late round timedOut s es = some a ↔
      (∃ pre e t, made late leaves es = pre ++ [e] ∧ (∀ d ∈ pre, leaves d = false) ∧ leaves e = true ∧
        rounds late round s pre = some t ∧ round t e = .leave a) ∨
      ∃ t, (∀ d ∈ made late leaves es, leaves d = false) ∧ rounds late round s (made late leaves es) = some t ∧
        es.any late = true ∧ a = timedOut t := by
  induction es generalizing s with
  | nil => simp [poll, made]
  | cons e es ih =>
    rw [poll]
    split
    next he =>
      rw [made_cons_late he, List.any_cons, he]
      constructor
      · rintro ⟨⟩
        exact Or.inr ⟨s, fun d hd => absurd hd List.not_mem_nil, rfl, rfl, rfl⟩
      · rintro (⟨pre, d, t, hmade, -⟩ | ⟨t, -, ht, -, ha⟩)
        · simp at hmade
        · cases ht
          rw [ha]
    next he =>
      have he : late e = false := Bool.eq_false_iff.mpr he
      cases hl : leaves e with
      | true =>
        obtain ⟨b, hb⟩ := hleave s e hl
        rw [made_cons_leaves he hl, hb]
        constructor
        · rintro ⟨⟩
          exact Or.inl ⟨[], e, s, rfl, fun d hd => absurd hd List.not_mem_nil, hl, rfl, hb⟩
        · rintro (⟨pre, d, t, hmade, -, -, ht, hround⟩ | ⟨t, hnone, -⟩)
          · cases pre with
            | nil =>
              cases hmade
              cases ht
              rw [hb] at hround
              exact congrArg some (Round.leave.inj hround)
            | cons c pre => simp at hmade
          · exact absurd (hnone e (List.mem_singleton.mpr rfl)) (by rw [hl]; exact Bool.noConfusion)
      | false =>
        obtain ⟨u, hu⟩ := hagain s e hl
        rw [made_cons_again he hl, hu, List.any_cons, he, Bool.false_or]
        change poll late round timedOut u es = some a ↔ _
        rw [ih]
        refine or_congr ⟨?_, ?_⟩ ⟨?_, ?_⟩
        · rintro ⟨pre, d, t, hmade, hpre, hd, ht, hround⟩
          refine ⟨e :: pre, d, t, by rw [hmade]; rfl, List.forall_mem_cons.mpr ⟨hl, hpre⟩, hd, ?_, hround⟩
          exact rounds_cons.mpr ⟨he, u, hu, ht⟩
        · rintro ⟨pre, d, t, hmade, hpre, hd, ht, hround⟩
          cases pre with
          | nil =>
            obtain ⟨rfl, -⟩ := List.cons.inj hmade
            rw [hl] at hd
            cases hd
          | cons c pre =>
            obtain ⟨hc, htail⟩ := List.cons.inj hmade
            subst hc
            obtain ⟨-, w, hw, ht⟩ := rounds_cons.mp ht
            cases hu.symm.trans hw
            exact ⟨pre, d, t, htail, (List.forall_mem_cons.mp hpre).2, hd, ht, hround⟩
        · rintro ⟨t, hnone, ht, hlate, ha⟩
          exact ⟨t, List.forall_mem_cons.mpr ⟨hl, hnone⟩, rounds_cons.mpr ⟨he, u, hu, ht⟩, hlate, ha⟩
        · rintro ⟨t, hnone, ht, hlate, ha⟩
          obtain ⟨-, w, hw, ht⟩ := rounds_cons.mp ht
          cases hu.symm.trans hw
          exact ⟨t, (List.forall_mem_cons.mp hnone).2, ht, hlate, ha⟩

theorem mem_of_mem_made (h : e ∈ made late leaves es) : e ∈ es ∧ late e = false := by
  induction es with
  | nil => cases h
  | cons d es ih =>
    rw [made] at h
    split at h
    next => cases h
    next hd =>
      have hd : late d = false := Bool.eq_false_iff.mpr hd
      split at h
      next =>
        rw [List.mem_singleton.mp h]
        exact ⟨List.mem_cons_self, hd⟩
      next =>
        rcases List.mem_cons.mp h with rfl | h
        · exact ⟨List.mem_cons_self, hd⟩
        · exact ⟨List.mem_cons_of_mem _ (ih h).1, (ih h).2⟩

/-- A round that leaves is the last one made. -/
theorem made_of_leaves (h : e ∈ made late leaves es) (hl : leaves e = true) :
    ∃ pre, made late leaves es = pre ++ [e] := by
  induction es with
  | nil => cases h
  | cons d es ih =>
    rw [made] at h ⊢
    split at h
    next => cases h
    next hdl =>
      rw [if_neg hdl]
      split at h
      next hleaves =>
        rw [if_pos hleaves, List.mem_singleton.mp h]
        exact ⟨[], rfl⟩
      next hstays =>
        rw [if_neg hstays]
        rcases List.mem_cons.mp h with rfl | h
        · exact absurd hl hstays
        · obtain ⟨pre, hpre⟩ := ih h
          exact ⟨d :: pre, by rw [hpre]; rfl⟩

theorem leaving_unique {d : ι} (hd : d ∈ made late leaves es) (he : e ∈ made late leaves es)
    (hld : leaves d = true) (hle : leaves e = true) : d = e := by
  obtain ⟨pre, hpre⟩ := made_of_leaves hd hld
  obtain ⟨pre', hpre'⟩ := made_of_leaves he hle
  have hlast := (List.append_inj' (hpre.symm.trans hpre') rfl).2
  exact List.head_eq_of_cons_eq hlast

end Made

/-! ### Bodies that swallow their exceptions -/

section Attempt
variable {body : ι → Program σ Err (Option α)} {s t : σ} {e : ι} {a : α}

/-- The round of a body under `try: …  except Exception: pass`. What the body has written stays. -/
def attempt (body : ι → Program σ Err (Option α)) (s : σ) (e : ι) : Round σ (Exit Err α × σ) :=
  match body e s with
  | (.returned none, t) => .again t
  | (.returned (some a), t) => .leave (.returned a, t)
  | (.raised (.exception _), t) => .again t
  | (.raised .cancelled, t) => .leave (.raised .cancelled, t)
  | (.stopped, t) => .leave (.stopped, t)

theorem attempt_leave_iff : attempt body s e = .leave (.returned a, t) ↔ body e s = (.returned (some a), t) := by
  unfold attempt
  split
  next h => simp [h]
  next h => simp [h]
  next h => simp [h]
  next h => simp [h]
  next h => simp [h]

theorem attempt_again_iff : attempt body s e = .again t ↔
    body e s = (.returned none, t) ∨ ∃ text, body e s = (.raised (.exception text), t) := by
  unfold attempt
  split
  next h => simp [h]
  next h => simp [h]
  next h => simp [h]
  next h => simp [h]
  next h => simp [h]

theorem attempt_again_state (h : attempt body s e = .again t) : (body e s).2 = t := by
  rcases attempt_again_iff.mp h with h | ⟨text, h⟩
  · rw [h]
  · rw [h]

end Attempt
end ReleaseValidation.Polls
