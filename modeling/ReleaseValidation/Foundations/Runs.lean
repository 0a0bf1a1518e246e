import Mathlib.Data.List.Induction

/-! # Finite runs of a labelled step function

A system is a partial step function: `step s a` is the state after action `a`, and
`none` when `a` is not enabled in `s`. A run is a list of actions taken one after
the other. Invariants, facts about the history of a run, and facts about every
transition of a run are each proved once here from their step form.
-/
namespace ReleaseValidation.Runs
variable {σ α : Type*} (step : σ → α → Option σ)

/-- The state at the end of the run, if every action was enabled in its turn. -/
def exec : σ → List α → Option σ
  | s, [] => some s
  | s, a :: as => (step s a).bind (fun t => exec t as)

@[simp] theorem exec_nil (s : σ) : exec step s [] = some s := rfl

@[simp] theorem exec_cons (s : σ) (a : α) (as : List α) :
    exec step s (a :: as) = (step s a).bind (fun t => exec step t as) := rfl

theorem exec_append (s : σ) (as bs : List α) :
    exec step s (as ++ bs) = (exec step s as).bind (fun t => exec step t bs) := by
  induction as generalizing s with
  | nil => rfl
  | cons a as ih =>
    simp only [List.cons_append, exec_cons]
    cases step s a with
    | none => rfl
    | some u => simpa only [Option.bind_some] using ih u

variable {step}

theorem exec_snoc_iff {s t : σ} {as : List α} {a : α} :
    exec step s (as ++ [a]) = some t ↔ ∃ u, exec step s as = some u ∧ step u a = some t := by
  rw [exec_append]
  cases h : exec step s as with
  | none => simp
  | some u => cases hu : step u a <;> simp [hu]

theorem exec_append_iff {s t : σ} {as bs : List α} :
    exec step s (as ++ bs) = some t ↔ ∃ u, exec step s as = some u ∧ exec step u bs = some t := by
  rw [exec_append, Option.bind_eq_some_iff]

theorem exec_append_eq_none {s : σ} {as bs : List α} (h : exec step s (as ++ bs) = none) :
    exec step s as = none ∨ ∃ u, exec step s as = some u ∧ exec step u bs = none := by
  rw [exec_append] at h
  cases hu : exec step s as with
  | none => exact Or.inl rfl
  | some u =>
    rw [hu] at h
    exact Or.inr ⟨u, rfl, h⟩

/-- A run that stops short has an action that is not enabled in its turn. -/
theorem exec_eq_none {s : σ} {as : List α} (h : exec step s as = none) :
    ∃ pre a post u, as = pre ++ a :: post ∧ exec step s pre = some u ∧ step u a = none := by
  induction as generalizing s with
  | nil => cases h
  | cons a as ih =>
    cases ha : step s a with
    | none => exact ⟨[], a, as, s, rfl, rfl, ha⟩
    | some t =>
      rw [exec_cons, ha] at h
      obtain ⟨pre, b, post, u, rfl, hpre, hb⟩ := ih h
      exact ⟨a :: pre, b, post, u, rfl, by rw [exec_cons, ha]; exact hpre, hb⟩

/-- Every transition of the run from `s` along `as` satisfies `Q`. -/
def Always (step : σ → α → Option σ) (Q : σ → α → σ → Prop) : σ → List α → Prop
  | _, [] => True
  | s, a :: as => ∀ t, step s a = some t → Q s a t ∧ Always step Q t as

instance decidableAlways {Q : σ → α → σ → Prop} [∀ s a t, Decidable (Q s a t)] :
    ∀ s as, Decidable (Always step Q s as)
  | _, [] => isTrue trivial
  | s, a :: as =>
    match h : step s a with
    | none => isTrue (by intro t ht; rw [h] at ht; cases ht)
    | some t =>
      have := decidableAlways (Q := Q) t as
      decidable_of_iff (Q s a t ∧ Always step Q t as)
        ⟨fun hq u hu => by rw [h] at hu; cases hu; exact hq, fun hq => hq t h⟩

theorem Always.mono {Q Q' : σ → α → σ → Prop} (hQ : ∀ s a t, Q s a t → Q' s a t) {s : σ} {as : List α}
    (h : Always step Q s as) : Always step Q' s as := by
  induction as generalizing s with
  | nil => trivial
  | cons a as ih => exact fun t ht => ⟨hQ _ _ _ (h t ht).1, ih (h t ht).2⟩

theorem always_append_iff {Q : σ → α → σ → Prop} {s : σ} {as bs : List α} :
    Always step Q s (as ++ bs) ↔
      Always step Q s as ∧ ∀ u, exec step s as = some u → Always step Q u bs := by
  induction as generalizing s with
  | nil => simp [Always]
  | cons a as ih =>
    simp only [List.cons_append, Always, exec_cons]
    constructor
    · intro h
      refine ⟨fun t ht => ⟨(h t ht).1, (ih.mp (h t ht).2).1⟩, ?_⟩
      intro u hu
      obtain ⟨t, ht, hu⟩ := Option.bind_eq_some_iff.mp hu
      exact (ih.mp (h t ht).2).2 u hu
    · rintro ⟨h, hb⟩ t ht
      refine ⟨(h t ht).1, ih.mpr ⟨(h t ht).2, fun u hu => hb u ?_⟩⟩
      rw [ht]
      exact hu

theorem Always.at {Q : σ → α → σ → Prop} {s u t : σ} {pre post : List α} {a : α}
    (h : Always step Q s (pre ++ a :: post)) (hu : exec step s pre = some u) (ht : step u a = some t) :
    Q u a t := by
  have hs := (always_append_iff.mp h).2 u hu
  exact (hs t ht).1

theorem always_of_forall {Q : σ → α → σ → Prop} {s : σ} {as : List α}
    (h : ∀ pre a post u t, as = pre ++ a :: post → exec step s pre = some u → step u a = some t → Q u a t) :
    Always step Q s as := by
  induction as generalizing s with
  | nil => trivial
  | cons a as ih =>
    intro t ht
    refine ⟨h [] a as s t rfl rfl ht, ih ?_⟩
    intro pre b post u v has hu hv
    refine h (a :: pre) b post u v (by rw [has]; rfl) ?_ hv
    rw [exec_cons, ht]
    exact hu

theorem always_of_mem {P : α → Prop} {s : σ} {as : List α} (h : ∀ a ∈ as, P a) :
    Always step (fun _ a _ => P a) s as :=
  always_of_forall fun pre a post _ _ has _ _ => h a (by rw [has]; simp)

/-- Facts about the state together with the history that led to it. -/
theorem exec_history {s : σ} {P : List α → σ → Prop} (h0 : P [] s)
    (hstep : ∀ as u a t, exec step s as = some u → P as u → step u a = some t → P (as ++ [a]) t)
    {as : List α} {t : σ} (h : exec step s as = some t) : P as t := by
  induction as using List.reverseRecOn generalizing t with
  | nil => cases h; exact h0
  | append_singleton as a ih =>
    obtain ⟨u, hu, ht⟩ := exec_snoc_iff.mp h
    exact hstep as u a t hu (ih hu) ht

theorem exec_invariant {I : σ → Prop} (hstep : ∀ u a t, I u → step u a = some t → I t) {s t : σ}
    {as : List α} (h0 : I s) (h : exec step s as = some t) : I t :=
  exec_history (P := fun _ u => I u) h0 (fun _ u a t _ hI ht => hstep u a t hI ht) h

/-- An invariant that the admissible transitions preserve holds at the end of
every run all of whose transitions are admissible. -/
theorem exec_invariant_always {I : σ → Prop} {Q : σ → α → σ → Prop}
    (hstep : ∀ u a t, I u → step u a = some t → Q u a t → I t) {s t : σ} {as : List α} (h0 : I s)
    (hQ : Always step Q s as) (h : exec step s as = some t) : I t := by
  induction as generalizing s with
  | nil => cases h; exact h0
  | cons a as ih =>
    obtain ⟨u, hu, ht⟩ := Option.bind_eq_some_iff.mp h
    exact ih (hstep s a u h0 hu (hQ u hu).1) (hQ u hu).2 ht

/-- What an invariant yields at each of its transitions holds at every transition of a run. -/
theorem always_of_invariant {I : σ → Prop} {Q R : σ → α → σ → Prop}
    (hstep : ∀ u a t, I u → step u a = some t → Q u a t → R u a t ∧ I t) {s : σ} {as : List α} (h0 : I s)
    (hQ : Always step Q s as) : Always step R s as := by
  induction as generalizing s with
  | nil => trivial
  | cons a as ih =>
    intro t ht
    obtain ⟨hR, hI⟩ := hstep s a t h0 ht (hQ t ht).1
    exact ⟨hR, ih hI (hQ t ht).2⟩

/-- Two facts about transitions that an invariant makes equivalent hold throughout the
same runs, if the first of them keeps the invariant. -/
theorem always_iff_of_invariant {I : σ → Prop} {Q R : σ → α → σ → Prop}
    (hstep : ∀ u a t, I u → step u a = some t → (Q u a t ↔ R u a t) ∧ (Q u a t → I t)) {s : σ} {as : List α}
    (h0 : I s) : Always step Q s as ↔ Always step R s as := by
  induction as generalizing s with
  | nil => exact Iff.rfl
  | cons a as ih =>
    constructor
    · intro h t ht
      obtain ⟨hiff, hkeep⟩ := hstep s a t h0 ht
      obtain ⟨hq, has⟩ := h t ht
      exact ⟨hiff.mp hq, (ih (hkeep hq)).mp has⟩
    · intro h t ht
      obtain ⟨hiff, hkeep⟩ := hstep s a t h0 ht
      obtain ⟨hr, has⟩ := h t ht
      exact ⟨hiff.mpr hr, (ih (hkeep (hiff.mpr hr))).mpr has⟩

/-- A run keeps an invariant while its transitions are admissible; the first other one leaves it for good. -/
theorem exec_kept_or_left {I J : σ → Prop} {Q : σ → α → σ → Prop}
    (hkeep : ∀ u a t, I u → step u a = some t → Q u a t → I t)
    (hleave : ∀ u a t, I u → step u a = some t → ¬ Q u a t → J t) (hstay : ∀ u a t, J u → step u a = some t → J t)
    {s t : σ} {as : List α} (h0 : I s) (h : exec step s as = some t) :
    Always step Q s as ∧ I t ∨ ¬ Always step Q s as ∧ J t := by
  induction as generalizing s with
  | nil =>
    cases h
    exact .inl ⟨trivial, h0⟩
  | cons a as ih =>
    obtain ⟨u, hu, h⟩ := Option.bind_eq_some_iff.mp h
    by_cases hQ : Q s a u
    · rcases ih (hkeep s a u h0 hu hQ) h with ⟨halways, hI⟩ | ⟨hnot, hJ⟩
      · refine .inl ⟨fun v hv => ?_, hI⟩
        cases hu.symm.trans hv
        exact ⟨hQ, halways⟩
      · exact .inr ⟨fun hall => hnot (hall u hu).2, hJ⟩
    · exact .inr ⟨fun hall => hQ (hall u hu).1, exec_invariant hstay (hleave s a u h0 hu hQ) h⟩

/-- What only the marked actions raise, by one each, has risen by no more than their number. -/
theorem exec_budget {Φ : σ → ℕ} {p : α → Bool}
    (hstep : ∀ u a t, step u a = some t → Φ t ≤ Φ u + if p a = true then 1 else 0) {s t : σ}
    {as : List α} (h : exec step s as = some t) : Φ t ≤ Φ s + as.countP p := by
  induction as generalizing s with
  | nil =>
    cases h
    exact Nat.le_add_right _ _
  | cons a as ih =>
    obtain ⟨u, hu, h⟩ := Option.bind_eq_some_iff.mp h
    have hfirst := hstep s a u hu
    have hrest := ih h
    rw [List.countP_cons]
    omega

/-! ### Runs under observation -/

section Observed
variable {β : Type*} {f : β → σ → α → β}

/-- The system beside an observation, which every action carries on. -/
def observed (step : σ → α → Option σ) (f : β → σ → α → β) (x : σ × β) (a : α) : Option (σ × β) :=
  (step x.1 a).map fun t => (t, f x.2 x.1 a)

theorem exec_of_observed {s t : σ} {b c : β} {as : List α} (h : exec (observed step f) (s, b) as = some (t, c)) :
    exec step s as = some t := by
  induction as generalizing s b with
  | nil =>
    cases h
    rfl
  | cons a as ih =>
    obtain ⟨x, hx, h⟩ := Option.bind_eq_some_iff.mp h
    obtain ⟨u, hu, rfl⟩ := Option.map_eq_some_iff.mp hx
    rw [exec_cons, hu]
    exact ih h

/-- What every step keeps, of the state and the observation, a run keeps. -/
theorem exec_observed_invariant {I : σ → β → Prop}
    (hstep : ∀ u b a t, I u b → step u a = some t → I t (f b u a)) {s t : σ} {b c : β} {as : List α} (h0 : I s b)
    (h : exec (observed step f) (s, b) as = some (t, c)) : I t c := by
  refine exec_invariant (I := fun x => I x.1 x.2) (fun u a v hu hv => ?_) h0 h
  obtain ⟨w, hw, rfl⟩ := Option.map_eq_some_iff.mp hv
  exact hstep u.1 u.2 a w hu hw

end Observed

theorem exec_stable {P : σ → Prop} {s t : σ} {as : List α}
    (h : Always step (fun u _ v => P u → P v) s as) (hs : P s) (he : exec step s as = some t) : P t :=
  exec_invariant_always (fun _ _ _ hP _ hQ => hQ hP) hs h he

end ReleaseValidation.Runs
