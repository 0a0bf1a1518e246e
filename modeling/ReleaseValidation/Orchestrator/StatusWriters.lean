import ReleaseValidation.Foundations.Runs
import ReleaseValidation.Orchestrator.RunClosure

/-! # The four writers of a run's status

The ready handler, the failed handler, the results consumer and the cancel endpoint
each read the run before they write its status, in separate database transactions.
Between the two the other writers run. Only the closing update of the results
consumer names the status that it replaces; the other three overwrite whatever they
find. Events and results may be delivered in any order and any number of times.
-/
namespace ReleaseValidation.Orchestrator.StatusWriters
open Store Runs

/-- An `UPDATE` of the status column that a handler has decided on. -/
inductive Writer
  | ready
  | failed
  | cancel
  | close (rate : ℚ)
  deriving DecidableEq, Repr

/-- `WHERE … AND status = 'running'`. -/
def Writer.guarded : Writer → Bool
  | .close _ => true
  | .ready | .failed | .cancel => false

variable (th : Thresholds)

def Writer.target : Writer → RunStatus
  | .ready => .running
  | .failed => .failed
  | .cancel => .cancelled
  | .close rate => finalStatus th rate

/-- The status after the update. -/
def Writer.write (w : Writer) (status : RunStatus) : RunStatus :=
  if w.guarded = true ∧ status ≠ .running then status else w.target th

structure State where
  status : RunStatus
  pending : List Writer
  deriving DecidableEq, Repr

def initial : State := ⟨.queued, []⟩

/-- A handler reads and decides (`deliver…`, `requestCancel`), and later its update is
committed or, when the handler dies in between, abandoned. -/
inductive Act
  | deliverReady
  | deliverFailed
  | requestCancel
  | deliverResult (counts : Counts) (stats : Stats)
  | commit (writer : Writer)
  | abandon (writer : Writer)
  deriving DecidableEq, Repr

/-- `if run.status in ("completed", "failed", "cancelled")` of `cancel_run`. -/
def cancelRefused (status : RunStatus) : Bool :=
  status == .completed || status == .failed || status == .cancelled

def State.enqueue (s : State) (w : Writer) : State := { s with pending := w :: s.pending }

def step (s : State) : Act → Option State
  | .deliverReady => some (if s.status = .cancelled then s else s.enqueue .ready)
  | .deliverFailed => some (if s.status = .cancelled then s else s.enqueue .failed)
  | .requestCancel => some (if cancelRefused s.status = true then s else s.enqueue .cancel)
  | .deliverResult c st => some (if c.unfinished = true then s else s.enqueue (.close st.rate))
  | .commit w => if w ∈ s.pending then some ⟨w.write th s.status, s.pending.erase w⟩ else none
  | .abandon w => if w ∈ s.pending then some { s with pending := s.pending.erase w } else none

/-- The transition leaves a terminal status as it is. -/
def Absorbs (s : State) (_ : Act) (t : State) : Prop := s.status.terminal = true → t.status = s.status

instance (s : State) (a : Act) (t : State) : Decidable (Absorbs s a t) :=
  inferInstanceAs (Decidable (_ → _))

/-- No stale writer: on a terminal run each unguarded pending update writes the status it
already has. -/
def Clear (s : State) : Prop :=
  s.status.terminal = true → ∀ w ∈ s.pending, w.guarded = false → w.target th = s.status

/-- The handlers read and write in time: no ready or failed event reaches a run that is
completed, warning or failed (a failed one may be failed again), no cancel reaches a
warning run, and no update makes the run terminal while another unguarded update that
writes something else is pending. -/
def Timely (s : State) (a : Act) (_ : State) : Prop :=
  match a with
  | .deliverReady => s.status.terminal = true → s.status = .cancelled
  | .deliverFailed => s.status.terminal = true → s.status = .cancelled ∨ s.status = .failed
  | .requestCancel => s.status ≠ .warning
  | .deliverResult _ _ => True
  | .commit w => (w.write th s.status).terminal = true →
      ∀ v ∈ s.pending.erase w, v.guarded = false → v.target th = w.write th s.status
  | .abandon _ => True

instance (s : State) (a : Act) (t : State) : Decidable (Timely th s a t) :=
  match a with
  | .deliverReady => inferInstanceAs (Decidable (_ → _))
  | .deliverFailed => inferInstanceAs (Decidable (_ → _ ∨ _))
  | .requestCancel => inferInstanceAs (Decidable (_ ≠ _))
  | .deliverResult _ _ => isTrue trivial
  | .commit _ => inferInstanceAs (Decidable (_ → ∀ _ ∈ _, _ → _))
  | .abandon _ => isTrue trivial

variable {th}

theorem clear_initial : Clear th initial := by
  intro _ w hw
  cases hw

theorem write_guarded {w : Writer} (hw : w.guarded = true) {status : RunStatus}
    (h : status.terminal = true) : w.write th status = status := by
  refine if_pos ⟨hw, ?_⟩
  intro he
  rw [he] at h
  cases h

theorem write_unguarded {w : Writer} (hw : w.guarded = false) (status : RunStatus) :
    w.write th status = w.target th := by
  apply if_neg
  rw [hw]
  simp

theorem clear_enqueue_iff {s : State} {w : Writer} (hs : Clear th s) (hw : w.guarded = false) :
    Clear th (s.enqueue w) ↔ (s.status.terminal = true → w.target th = s.status) := by
  constructor
  · intro h hterm
    exact h hterm w List.mem_cons_self hw
  · intro h hterm v hv hg
    rcases List.mem_cons.mp hv with rfl | hv
    · exact h hterm
    · exact hs hterm v hv hg

theorem clear_enqueue_close {s : State} (hs : Clear th s) (rate : ℚ) :
    Clear th (s.enqueue (.close rate)) := by
  intro hterm v hv hg
  rcases List.mem_cons.mp hv with rfl | hv
  · cases hg
  · exact hs hterm v hv hg

theorem step_timely_iff {s t : State} {a : Act} (hs : Clear th s) (h : step th s a = some t) :
    Timely th s a t ↔ Clear th t := by
  cases a with
  | deliverReady =>
    simp only [step, Option.some.injEq] at h
    subst h
    split
    next hc => exact ⟨fun _ => hs, fun _ _ => hc⟩
    next hc =>
      rw [clear_enqueue_iff hs rfl]
      refine forall_congr' fun hterm => ⟨fun he => absurd he hc, fun he => ?_⟩
      rw [← he] at hterm
      cases hterm
  | deliverFailed =>
    simp only [step, Option.some.injEq] at h
    subst h
    split
    next hc => exact ⟨fun _ => hs, fun _ _ => .inl hc⟩
    next hc =>
      rw [clear_enqueue_iff hs rfl]
      exact forall_congr' fun _ =>
        ⟨fun he => (he.resolve_left hc).symm, fun he => .inr he.symm⟩
  | requestCancel =>
    simp only [step, Option.some.injEq] at h
    subst h
    split
    next hc =>
      refine ⟨fun _ => hs, fun _ he => ?_⟩
      rw [he] at hc
      cases hc
    next hc =>
      rw [clear_enqueue_iff hs rfl]
      simp only [Timely]
      cases hst : s.status <;> simp [hst, cancelRefused, Writer.target] at hc ⊢
  | deliverResult c st =>
    simp only [step, Option.some.injEq] at h
    subst h
    refine ⟨fun _ => ?_, fun _ => trivial⟩
    split
    · exact hs
    · exact clear_enqueue_close hs st.rate
  | commit w =>
    simp only [step] at h
    split at h
    · cases h
      exact Iff.rfl
    · cases h
  | abandon w =>
    simp only [step] at h
    split at h
    · cases h
      exact ⟨fun _ hterm v hv => hs hterm v (List.mem_of_mem_erase hv), fun _ => trivial⟩
    · cases h

theorem step_absorbs {s t : State} {a : Act} (hs : Clear th s) (h : step th s a = some t) :
    Absorbs s a t := by
  intro hterm
  cases a with
  | deliverReady | deliverFailed | requestCancel | deliverResult =>
    simp only [step, Option.some.injEq] at h
    subst h
    split <;> rfl
  | commit w =>
    simp only [step] at h
    split at h
    next hw =>
      cases h
      cases hg : w.guarded with
      | true => exact write_guarded hg hterm
      | false => exact (write_unguarded hg _).trans (hs hterm w hw hg)
    · cases h
  | abandon w =>
    simp only [step] at h
    split at h
    · cases h
      rfl
    · cases h

theorem step_pending {s t : State} {a : Act} {v : Writer} (h : step th s a = some t)
    (hv : v ∈ s.pending) : v ∈ t.pending ∨ a = .abandon v ∨ a = .commit v ∧ t.status = v.write th s.status := by
  cases a with
  | deliverReady | deliverFailed | requestCancel | deliverResult =>
    simp only [step, Option.some.injEq] at h
    subst h
    left
    split
    · exact hv
    · exact List.mem_cons_of_mem _ hv
  | commit w =>
    simp only [step] at h
    split at h
    · cases h
      by_cases he : v = w
      · subst he
        exact .inr (.inr ⟨rfl, rfl⟩)
      · exact .inl ((List.mem_erase_of_ne he).mpr hv)
    · cases h
  | abandon w =>
    simp only [step] at h
    split at h
    · cases h
      by_cases he : v = w
      · subst he
        exact .inr (.inl rfl)
      · exact .inl ((List.mem_erase_of_ne he).mpr hv)
    · cases h

theorem timely_absorbs {s : State} {as : List Act} (hs : Clear th s)
    (h : Always (step th) (Timely th) s as) : Always (step th) Absorbs s as := by
  refine always_of_invariant (I := Clear th) (Q := Timely th) ?_ hs h
  intro u a v hu hut ht
  exact ⟨step_absorbs hu hut, (step_timely_iff hu hut).mp ht⟩

theorem stale_not_absorbs {s t : State} {as : List Act} (hs : ¬ Clear th s)
    (ha : ∀ w, Act.abandon w ∉ as) (h : exec (step th) s as = some t) (ht : t.pending = []) :
    ¬ Always (step th) Absorbs s as := by
  induction as generalizing s with
  | nil =>
    cases h
    refine absurd ?_ hs
    intro _ w hw
    rw [ht] at hw
    cases hw
  | cons a as ih =>
    obtain ⟨u, hu, h⟩ := Option.bind_eq_some_iff.mp h
    intro habs
    obtain ⟨hstep, hrest⟩ := habs u hu
    refine ih ?_ (fun w hw => ha w (List.mem_cons_of_mem _ hw)) h hrest
    intro hclear
    apply hs
    intro hterm v hv hg
    have hstatus : u.status = s.status := hstep hterm
    rcases step_pending hu hv with hv | rfl | ⟨rfl, hw⟩
    · have hterm' : u.status.terminal = true := by
        rw [hstatus]
        exact hterm
      exact (hclear hterm' v hv hg).trans hstatus
    · exact absurd List.mem_cons_self (ha v)
    · rw [← write_unguarded hg s.status, ← hw]
      exact hstatus

theorem absorbs_timely {s t : State} {as : List Act} (hs : Clear th s)
    (ha : ∀ w, Act.abandon w ∉ as) (h : exec (step th) s as = some t) (ht : t.pending = [])
    (habs : Always (step th) Absorbs s as) : Always (step th) (Timely th) s as := by
  induction as generalizing s with
  | nil => trivial
  | cons a as ih =>
    obtain ⟨u, hu, h⟩ := Option.bind_eq_some_iff.mp h
    have ha' : ∀ w, Act.abandon w ∉ as := fun w hw => ha w (List.mem_cons_of_mem _ hw)
    have hclear : Clear th u := by
      by_contra hc
      exact stale_not_absorbs hc ha' h ht (habs u hu).2
    intro v hv
    rw [hu] at hv
    cases hv
    exact ⟨(step_timely_iff hs hu).mpr hclear, ih hclear ha' h (habs u hu).2⟩

/-- In every run whose handlers read and write in time a terminal status is kept for good;
and a run in which every decided update is committed keeps it only then. -/
theorem statusWriters_absorbing {t : State} {as : List Act} (h : exec (step th) initial as = some t) :
    (Always (step th) (Timely th) initial as → Always (step th) Absorbs initial as) ∧
    (t.pending = [] → (∀ w, Act.abandon w ∉ as) →
      Always (step th) Absorbs initial as → Always (step th) (Timely th) initial as) :=
  ⟨timely_absorbs clear_initial, fun ht ha => absorbs_timely clear_initial ha h ht⟩

/-- Four of five tests pass, the run closes as warning, and is then cancelled. -/
def warningThenCancel : List Act :=
  [.deliverReady, .commit .ready, .deliverResult ⟨5, 5, 0⟩ ⟨4, 5⟩, .commit (.close 80),
   .requestCancel, .commit .cancel]

theorem warning_run_cancelled :
    exec (step .default) initial (warningThenCancel.take 4) = some ⟨.warning, []⟩ ∧
    exec (step .default) initial warningThenCancel = some ⟨.cancelled, []⟩ ∧
    ¬ Always (step .default) Absorbs initial warningThenCancel := by
  decide +kernel

theorem statusWriters_absorbing_passed :
    exec (step .default) initial (warningThenCancel.take 4) = some ⟨.warning, []⟩ ∧
    Always (step .default) Absorbs initial (warningThenCancel.take 4) := by
  have h : exec (step .default) initial (warningThenCancel.take 4) = some ⟨.warning, []⟩ := by
    decide +kernel
  exact ⟨h, (statusWriters_absorbing h).1 (by decide +kernel)⟩

end ReleaseValidation.Orchestrator.StatusWriters
