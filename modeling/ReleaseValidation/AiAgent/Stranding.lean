import ReleaseValidation.AiAgent.Sessions

/-! # Sessions that end without a terminal status

The bootstrap and the loop of an autonomous session have handlers that save the session
as failed. An exception at any other step ends the coroutine and leaves the row as it is.
-/
namespace ReleaseValidation.AiAgent
open Parties Runs
variable {φ : Type}

/-- A coroutine that ends leaves a terminal status. -/
def EndsTerminal (s : State φ) (_ : Act φ) (t : State φ) : Prop :=
  ∀ (i : ℕ) (x y : Session φ), s.sessions[i]? = some x → t.sessions[i]? = some y →
    x.phase.isEnded = false → y.phase.isEnded = true → y.row.status.terminal = true

/-- No exception ends a coroutine whose session has not been aborted. -/
def NoEscape (s : State φ) : Act φ → State φ → Prop
  | .at i .raise, _ => ∀ x ∈ s.sessions[i]?, x.exposed = true → x.row.status.terminal = true
  | _, _ => True

section Steps
variable {x y : Session φ} {findings gs : List φ} {e : Event φ}

theorem afterSave_ended_iff (mode : SessionMode) (kind : SaveKind) :
    (Phase.afterSave mode kind : Phase φ).isEnded = true ↔ kind.status.terminal = true := by
  cases kind <;> cases mode <;> simp [Phase.afterSave, Phase.isEnded, SaveKind.status, SessionStatus.terminal]

/-- A coroutine ends by an exception that escapes, or with a terminal status. -/
theorem Session.Moves.ended (h : x.Moves findings e y gs) (hx : x.phase.isEnded = false)
    (hend : y.phase.isEnded = true) :
    e = .raise ∧ x.exposed = true ∧ y.row.status = x.row.status ∨ y.row.status.terminal = true := by
  cases h with
  | cancel =>
    have hphase : x.cancel.phase = x.phase := by
      unfold Session.cancel
      split <;> rfl
    rw [hphase, hx] at hend
    cases hend
  | start hp => cases hboot : x.request.bootstraps <;> rw [hboot] at hend <;> cases hend
  | pollAborted seen hp hs =>
    refine .inr ?_
    change x.row.status.terminal = true
    rw [hs]
    rfl
  | pollWaiting hp hs => cases hx.symm.trans hend
  | write kind saved hp => exact .inr ((afterSave_ended_iff x.request.mode kind).mp hend)
  | escapes hp => exact .inl ⟨rfl, hp, rfl⟩
  | report finding hp => cases hx.symm.trans hend
  | _ => cases hend

theorem exposed_not_ended (h : x.exposed = true) : x.phase.isEnded = false := by
  unfold Session.exposed at h
  cases hp : x.phase <;> rw [hp] at h <;> first | rfl | cases h

/-- An exception at an exposed step ends the coroutine and leaves the row alone. -/
theorem raise_exposed (h : x.exposed = true) (findings : List φ) : x.raise findings = some (x.goTo (.ended true)) := by
  unfold Session.exposed at h
  unfold Session.raise
  cases hp : x.phase with
  | preparing stage =>
    rw [hp] at h
    exact if_neg (of_decide_eq_true h)
  | crashed => rfl
  | finished => rfl
  | kickoff => rfl
  | answering => rfl
  | closing => rfl
  | _ => rw [hp] at h; cases h

theorem step_endsTerminal_iff {s t : State φ} {a : Act φ} (h : step s a = some t) :
    EndsTerminal s a t ↔ NoEscape s a t := by
  constructor
  · intro hends
    unfold NoEscape
    split
    next i =>
      intro x hx hexposed
      obtain ⟨x', y, findings, hx', hy, rfl⟩ := step_at_eq_some.mp h
      cases hx'.symm.trans hx
      rw [Session.step, raise_exposed hexposed, Option.map_some, Option.some_inj] at hy
      obtain ⟨rfl, rfl⟩ := Prod.mk.inj hy
      exact hends i x (x.goTo (.ended true)) hx (getElem?_set_of_some hx) (exposed_not_ended hexposed) rfl
    · trivial
  · intro hno i x y hx hy hopen hend
    rcases step_session h hx with ⟨e, z, rfl, hz, hget⟩ | ⟨hget, -⟩
    · cases hget.symm.trans hy
      rcases (Session.step_moves hz).ended hopen hend with ⟨rfl, hexposed, hstatus⟩ | hterm
      · rw [hstatus]
        exact hno x hx hexposed
      · exact hterm
    · cases hget.symm.trans hy
      cases hopen.symm.trans hend

end Steps

/-- The coroutines of a run all end with a terminal status exactly when no exception ends
one outside the handlers while its session is live. -/
theorem no_session_stranded_iff {as : List (Act φ)} :
    Always step EndsTerminal initial as ↔ Always step NoEscape initial as := by
  refine always_iff_of_invariant (I := fun _ => True) ?_ trivial
  intro s a t _ h
  exact ⟨step_endsTerminal_iff h, fun _ => trivial⟩

/-- The first message of a collaborative session raises, say for a key that is refused. -/
def kickoffRefused : List (Act String) :=
  .create ⟨.collaborative, .runner, none, some "sbx-1", none, [], false⟩ "run-1" ::
    onSession 0 (.start :: List.replicate 6 .advance)

theorem session_stranded : ¬ Always step EndsTerminal initial (kickoffRefused ++ [.at 0 .raise]) := by
  intro h
  have hrun : (exec step initial kickoffRefused).bind
      (fun u => (step u (.at 0 .raise)).bind fun t => u.sessions[0]?.bind fun x => t.sessions[0]?.map fun y =>
        (x.phase.isEnded, y.phase.isEnded, y.row.status)) = some (false, true, .active) := by decide +kernel
  obtain ⟨u, hu, hrest⟩ := Option.bind_eq_some_iff.mp hrun
  obtain ⟨t, ht, hrest⟩ := Option.bind_eq_some_iff.mp hrest
  obtain ⟨x, hx, hrest⟩ := Option.bind_eq_some_iff.mp hrest
  obtain ⟨y, hy, hstatus⟩ := Option.map_eq_some_iff.mp hrest
  rw [Prod.mk.injEq, Prod.mk.injEq] at hstatus
  obtain ⟨hopen, hend, hactive⟩ := hstatus
  have hterm := h.at hu ht 0 x y hx hy hopen hend
  rw [hactive] at hterm
  cases hterm

end ReleaseValidation.AiAgent
