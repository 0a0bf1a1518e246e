import ReleaseValidation.AiAgent.Sessions

/-! # Whose findings a session hands out

`report_finding` appends to one list of the process, which every session clears when it
starts and reads whenever it saves or sums up.
-/
namespace ReleaseValidation.AiAgent
open Parties Runs
variable {φ : Type}

namespace Phase

/-- The session has cleared the list, and is to read it again. -/
def collecting : Phase φ → Bool
  | queued | ended _ | saving .completed _ | saving .bootstrapFailed _ | saving .crashed _ => false
  | _ => true

end Phase

/-- What the step hands out as the findings of the session at `i`: the row that a save
writes, a summary, or the list that `total_findings` counts. -/
def Reports (s : State φ) (a : Act φ) (t : State φ) (i : ℕ) (fs : List φ) : Prop :=
  ∃ x y, s.sessions[i]? = some x ∧ t.sessions[i]? = some y ∧
    (a = .at i .advance ∧ (∃ kind saved, x.phase = .saving kind saved) ∧ fs = y.row.findings ∨
      a = .at i .advance ∧ (x.phase = .running ∨ x.phase = .closing) ∧ y.summary = some fs ∨
      (∃ f, a = .at i (.report f)) ∧ fs = t.findings)

/-- The last step of the run hands out `fs` as the findings of the session at `i`. -/
def HandedOut (as : List (Act φ)) (i : ℕ) (fs : List φ) : Prop :=
  ∃ pre a s t, as = pre ++ [a] ∧ exec step initial pre = some s ∧ step s a = some t ∧ Reports s a t i fs

/-- What the session's own calls of `report_finding` record, in their order. -/
def ownCalls (i : ℕ) (as : List (Act φ)) : List φ :=
  as.filterMap fun
    | .at j (.report f) => if j = i then some f else none
    | _ => none

/-- No session reports while another one collects, and none starts while another one has
findings to hand out. -/
def Alone (s : State φ) : Act φ → State φ → Prop
  | .at i .start, _ => ∀ x ∈ s.sessions.eraseIdx i, x.phase.collecting = true → x.recorded = []
  | .at i (.report _), _ => ∀ x ∈ s.sessions.eraseIdx i, x.phase.collecting = false
  | _, _ => True

instance [DecidableEq φ] (s : State φ) (a : Act φ) (t : State φ) : Decidable (Alone s a t) := by
  unfold Alone
  split <;> infer_instance

/-! ### What the calls of a session record -/

section Steps
variable {x y : Session φ} {findings gs : List φ} {e : Event φ}

theorem Session.Moves.recorded (h : x.Moves findings e y gs) :
    (∃ f, e = .report f ∧ y.recorded = x.recorded ++ [f]) ∨ (∀ f, e ≠ .report f) ∧ y.recorded = x.recorded := by
  cases h with
  | cancel =>
    refine .inr ⟨nofun, ?_⟩
    unfold Session.cancel
    split <;> rfl
  | report f hp => exact .inl ⟨f, rfl, rfl⟩
  | _ => exact .inr ⟨nofun, rfl⟩

theorem Session.Moves.list (h : x.Moves findings e y gs) :
    e = .start ∧ gs = [] ∨ (∃ f, e = .report f ∧ gs = findings ++ [f]) ∨ gs = findings := by
  cases h with
  | start hp => exact .inl ⟨rfl, rfl⟩
  | report f hp => exact .inr (.inl ⟨f, rfl, rfl⟩)
  | _ => exact .inr (.inr rfl)

theorem ownCalls_snoc (i : ℕ) (as : List (Act φ)) (a : Act φ) : ownCalls i (as ++ [a]) = ownCalls i as ++ ownCalls i [a] :=
  List.filterMap_append

/-- A session that is not there has reported nothing, and the others have recorded their own calls. -/
theorem recorded_eq_ownCalls {as : List (Act φ)} {t : State φ} (h : exec step initial as = some t) (i : ℕ) :
    ownCalls i as = (t.sessions[i]?.map Session.recorded).getD [] := by
  refine exec_history (P := fun as s => ownCalls i as = (s.sessions[i]?.map Session.recorded).getD []) rfl ?_ h
  intro as s a t _ ih ht
  rw [ownCalls_snoc, ih]
  cases hx : s.sessions[i]? with
  | some x =>
    rcases step_session ht hx with ⟨e, y, rfl, hy, hget⟩ | ⟨hget, hother⟩
    · rw [hget]
      rcases (Session.step_moves hy).recorded with ⟨f, rfl, hrec⟩ | ⟨hne, hrec⟩
      · simp [ownCalls, hrec]
      · rw [Option.map_some, Option.map_some, Option.getD_some, Option.getD_some, hrec]
        cases e with
        | report f => exact absurd rfl (hne f)
        | _ => exact List.append_nil _
    · rw [hget]
      cases a with
      | create b newRun => exact List.append_nil _
      | «at» j e =>
        have hij : j ≠ i := by
          rintro rfl
          exact hother e rfl
        cases e with
        | report f => simp [ownCalls, hij]
        | _ => exact List.append_nil _
  | none =>
    have hnone : ownCalls i [a] = [] := by
      cases a with
      | create b newRun => rfl
      | «at» j e =>
        obtain ⟨x, _, _, hj, -, -⟩ := step_at_eq_some.mp ht
        have hij : j ≠ i := by
          rintro rfl
          cases hx.symm.trans hj
        cases e with
        | report f => simp [ownCalls, hij]
        | _ => rfl
    rw [hnone]
    cases hy : t.sessions[i]? with
    | none => rfl
    | some y =>
      rcases step_cases ht hy with ⟨b, newRun, -, rfl⟩ | ⟨e, x, -, hx', -⟩ | ⟨hx', -⟩
      · rfl
      · cases hx.symm.trans hx'
      · cases hx.symm.trans hx'

/-! ### What the list holds for a session -/

/-- The list, and a copy of it that is being saved, are what the session has recorded. -/
structure Session.Owns (x : Session φ) (findings : List φ) : Prop where
  list : x.phase.collecting = true → findings = x.recorded
  saved : ∀ kind saved, x.phase = .saving kind saved → saved = x.recorded
  fresh : x.phase = .queued → x.recorded = []

theorem owns_created (b : SessionBody) (newRun : Store.Uuid) (findings : List φ) :
    (Session.created b newRun).Owns findings :=
  ⟨nofun, nofun, fun _ => rfl⟩

/-- A save that starts copies the list. -/
theorem Session.Owns.save (hx : x.Owns findings) (hp : x.phase.collecting = true) (kind : SaveKind) :
    (x.save kind findings).Owns findings where
  list _ := hx.list hp
  saved _ _ h := by cases h; exact hx.list hp
  fresh := nofun

theorem Session.Owns.goTo (hx : x.Owns findings) (hp : x.phase.collecting = true) {p : Phase φ}
    (hsaving : ∀ kind saved, p ≠ .saving kind saved) (hqueued : p ≠ .queued) : (x.goTo p).Owns findings where
  list _ := hx.list hp
  saved kind saved h := absurd h (hsaving kind saved)
  fresh h := absurd h hqueued

theorem calling_collecting {p : Phase φ} (h : p.calling = true) :
    p.collecting = true ∧ (∀ kind saved, p ≠ .saving kind saved) ∧ p ≠ .queued := by
  cases p <;> first | exact ⟨rfl, nofun, nofun⟩ | cases h

theorem write_owns (hx : x.Owns findings) {kind : SaveKind} {saved : List φ} (hp : x.phase = .saving kind saved) :
    (x.write kind saved).Owns findings := by
  cases kind with
  | interim =>
    have hlist := hx.list (by rw [hp]; rfl)
    unfold Session.write Phase.afterSave
    cases x.request.mode with
    | autonomous => exact ⟨fun _ => hlist, nofun, nofun⟩
    | collaborative => exact ⟨fun _ => hlist, nofun, nofun⟩
    | interactive => exact ⟨fun _ => hlist, nofun, nofun⟩
  | completed => exact ⟨nofun, nofun, nofun⟩
  | bootstrapFailed => exact ⟨nofun, nofun, nofun⟩
  | crashed => exact ⟨nofun, nofun, nofun⟩

theorem Session.Moves.owns (h : x.Moves findings e y gs) (hx : x.Owns findings) : y.Owns gs := by
  cases h with
  | cancel =>
    unfold Session.cancel
    split
    · exact ⟨hx.list, hx.saved, hx.fresh⟩
    · exact hx
  | start hp =>
    have hempty := hx.fresh hp
    cases x.request.bootstraps with
    | false => exact ⟨fun _ => hempty.symm, nofun, nofun⟩
    | true => exact ⟨fun _ => hempty.symm, nofun, nofun⟩
  | pollNoRun seen hp hrun => exact hx.save (by rw [hp]; rfl) _
  | pollAborted seen hp hs => exact ⟨nofun, nofun, nofun⟩
  | pollWaiting hp hs => exact hx
  | pollReady sandboxId hp hs => exact hx.goTo (by rw [hp]; rfl) nofun nofun
  | pollFailed hp hs => exact hx.save (by rw [hp]; rfl) _
  | bootstrapTimesOut hp => exact hx.save (by rw [hp]; rfl) _
  | messagesTimeOut hp => exact hx.goTo (by rcases hp with hp | hp <;> rw [hp] <;> rfl) nofun nofun
  | activate sandboxId hp => exact ⟨fun _ => hx.list (by rw [hp]; rfl), nofun, nofun⟩
  | prepare stage next hp hnext => exact hx.goTo (by rw [hp]; rfl) nofun nofun
  | prepared stage hp hnext => exact hx.save (by rw [hp]; rfl) _
  | write kind saved hp => exact write_owns hx hp
  | loopReturns hp => exact ⟨fun _ => hx.list (by rw [hp]; rfl), nofun, nofun⟩
  | saveCrashed hp => exact hx.save (by rw [hp]; rfl) _
  | saveFinished hp => exact hx.save (by rw [hp]; rfl) _
  | answered hp => exact hx.goTo (by rcases hp with hp | hp <;> rw [hp] <;> rfl) nofun nofun
  | saveClosing hp =>
    have hsave := hx.save (by rw [hp]; rfl) .completed
    exact ⟨hsave.list, hsave.saved, hsave.fresh⟩
  | bootstrapRaises hp => exact hx.save (by rcases hp with hp | ⟨_, hp⟩ <;> rw [hp] <;> rfl) _
  | loopRaises hp => exact hx.goTo (by rw [hp]; rfl) nofun nofun
  | escapes hp => exact ⟨nofun, nofun, nofun⟩
  | report f hp =>
    obtain ⟨hcollecting, hsaving, hqueued⟩ := calling_collecting hp
    refine ⟨fun _ => ?_, fun kind saved h => absurd h (hsaving kind saved), fun h => absurd h hqueued⟩
    rw [hx.list hcollecting]
  | receive hp => exact hx.goTo (by rw [hp]; rfl) nofun nofun
  | leave hp => exact hx.goTo (by rw [hp]; rfl) nofun nofun

variable {s t : State φ} {a : Act φ}

/-- What the others hold survives a step that keeps to itself. -/
theorem others_own (h : step s a = some t) (ha : Alone s a t) {j : ℕ} (hj : s.sessions[j]? = some x)
    (hother : ∀ e, a ≠ .at j e) (hx : x.Owns s.findings) : x.Owns t.findings := by
  cases a with
  | create b newRun =>
    obtain ⟨-, rfl⟩ := step_create_eq_some.mp h
    exact hx
  | «at» i e =>
    obtain ⟨z, y, gs, -, hy, rfl⟩ := step_at_eq_some.mp h
    have hmem : x ∈ s.sessions.eraseIdx i := by
      rw [List.mem_eraseIdx_iff_getElem?]
      refine ⟨j, ?_, hj⟩
      rintro rfl
      exact hother e rfl
    rcases (Session.step_moves hy).list with ⟨rfl, rfl⟩ | ⟨f, rfl, rfl⟩ | rfl
    · exact ⟨fun hc => (ha x hmem hc).symm, hx.saved, hx.fresh⟩
    · exact ⟨fun hc => absurd (hc.symm.trans (ha x hmem)) nofun, hx.saved, hx.fresh⟩
    · exact hx

theorem step_owns (h : step s a = some t) (hs : Each (fun _ x => x.Owns s.findings) s.sessions)
    (ha : Alone s a t) : Each (fun _ x => x.Owns t.findings) t.sessions := by
  intro j y hj
  rcases step_cases h hj with ⟨b, newRun, -, rfl⟩ | ⟨e, x, rfl, hx, hy⟩ | ⟨hy, hother⟩
  · exact owns_created b newRun t.findings
  · exact (Session.step_moves hy).owns (hs j x hx)
  · exact others_own h ha hy hother (hs j y hy)

/-- What is handed out for a session is what it has recorded. -/
theorem reports_recorded (h : step s a = some t) (hs : Each (fun _ x => x.Owns s.findings) s.sessions)
    {i : ℕ} {fs : List φ} (hr : Reports s a t i fs) : ∃ y, t.sessions[i]? = some y ∧ fs = y.recorded := by
  obtain ⟨x, y, hx, hy, hr⟩ := hr
  refine ⟨y, hy, ?_⟩
  have hstep : ∀ e, a = .at i e → x.step s.findings e = some (y, t.findings) := by
    rintro e rfl
    obtain ⟨x', y', gs, hx', hy', rfl⟩ := step_at_eq_some.mp h
    cases hx.symm.trans hx'
    cases (getElem?_set_of_some hx).symm.trans hy
    exact hy'
  have howns := hs i x hx
  rcases hr with ⟨ha, ⟨kind, saved, hp⟩, rfl⟩ | ⟨ha, hp, hsummary⟩ | ⟨⟨f, ha⟩, rfl⟩
  · have hy := hstep _ ha
    rw [Session.step, Session.advance, hp, Option.map_some, Option.some_inj] at hy
    obtain ⟨rfl, -⟩ := Prod.mk.inj hy
    exact howns.saved kind saved hp
  · have hy := hstep _ ha
    have hlist : s.findings = x.recorded := howns.list (by rcases hp with hp | hp <;> rw [hp] <;> rfl)
    rcases hp with hp | hp <;>
      rw [Session.step, Session.advance, hp, Option.map_some, Option.some_inj] at hy <;>
      obtain ⟨rfl, -⟩ := Prod.mk.inj hy <;>
      cases hsummary <;> exact hlist
  · have hy := hstep _ ha
    simp only [Session.step, Option.ite_none_right_eq_some, Option.some_inj] at hy
    obtain ⟨hcalling, hy⟩ := hy
    obtain ⟨rfl, hlist⟩ := Prod.mk.inj hy
    rw [← hlist, howns.list (calling_collecting hcalling).1]

end Steps

/-- In every run whose sessions keep to themselves, what is handed out for a session is what
its own calls have recorded, whatever the calls of the others are. -/
theorem findings_isolated {as : List (Act φ)} (h : Always step Alone initial as) {i : ℕ} {fs : List φ}
    (hout : HandedOut as i fs) :
    fs = ownCalls i as ∧
      ∀ (bs : List (Act φ)) (gs : List φ), Always step Alone initial bs → HandedOut bs i gs →
        ownCalls i bs = ownCalls i as → gs = fs := by
  have hown : ∀ (cs : List (Act φ)) (hs : List φ), Always step Alone initial cs → HandedOut cs i hs →
      hs = ownCalls i cs := by
    rintro cs hs hc ⟨pre, a, s, t, rfl, hpre, ht, hr⟩
    have hinv : Each (fun _ x => x.Owns s.findings) s.sessions :=
      exec_invariant_always (I := fun s => Each (fun _ x => x.Owns s.findings) s.sessions)
        (fun _ _ _ hi hstep ha => step_owns hstep hi ha) (fun i x hx => by cases hx) (always_append_iff.mp hc).1 hpre
    obtain ⟨y, hy, rfl⟩ := reports_recorded ht hinv hr
    have hrun : exec step initial (pre ++ [a]) = some t := exec_snoc_iff.mpr ⟨s, hpre, ht⟩
    rw [recorded_eq_ownCalls hrun, hy]
    rfl
  refine ⟨hown as fs h hout, fun bs gs hb hbout hcalls => ?_⟩
  rw [hown bs gs hb hbout, hcalls, ← hown as fs h hout]

/-- A session that is saving is about to hand out its copy. -/
theorem handedOut_of_saving {pre : List (Act φ)} {i : ℕ} (kind : SaveKind) {saved : List φ}
    (h : (exec step initial pre).bind (fun s => s.sessions[i]?.map Session.phase) = some (.saving kind saved)) :
    HandedOut (pre ++ [.at i .advance]) i saved := by
  obtain ⟨s, hs, hphase⟩ := Option.bind_eq_some_iff.mp h
  obtain ⟨x, hx, hp⟩ := Option.map_eq_some_iff.mp hphase
  have hadvance : x.step s.findings .advance = some (x.write kind saved, s.findings) := by
    rw [Session.step, Session.advance, hp]
    rfl
  refine ⟨pre, _, s, _, rfl, hs, step_at_eq_some.mpr ⟨x, _, _, hx, hadvance, rfl⟩, ?_⟩
  exact ⟨x, x.write kind saved, hx, getElem?_set_of_some hx, .inl ⟨rfl, ⟨kind, saved, hp⟩, rfl⟩⟩

/-- A session that works until its loop is running. -/
def untilRunning (i : ℕ) : List (Act ℕ) := onSession i (.start :: List.replicate 6 .advance)

/-- Two sessions of one sandbox, the second of which starts when the first has ended. -/
def inTurn : List (Act ℕ) :=
  [.create ⟨.autonomous, .runner, none, some "sbx-1", some "inputs", [], false⟩ "",
   .create ⟨.autonomous, .runner, none, some "sbx-1", some "vouchers", [], false⟩ ""] ++
    untilRunning 0 ++ onSession 0 [.report 7, .advance, .advance, .advance] ++
    untilRunning 1 ++ onSession 1 [.report 8, .advance, .advance]

theorem findings_isolated_inTurn :
    HandedOut (inTurn ++ [.at 1 .advance]) 1 [8] ∧
      ([8] = ownCalls 1 (inTurn ++ [.at 1 .advance]) ∧
        ∀ (bs : List (Act ℕ)) (gs : List ℕ), Always step Alone initial bs → HandedOut bs 1 gs →
          ownCalls 1 bs = ownCalls 1 (inTurn ++ [.at 1 .advance]) → gs = [8]) :=
  have hout : HandedOut (inTurn ++ [.at 1 .advance]) 1 [8] := handedOut_of_saving .completed (by decide +kernel)
  ⟨hout, findings_isolated (by decide +kernel) hout⟩

/-- The second session starts, and works, while the first one does. -/
def sideBySide : List (Act ℕ) :=
  [.create ⟨.autonomous, .runner, none, some "sbx-1", some "inputs", [], false⟩ "",
   .create ⟨.autonomous, .runner, none, some "sbx-1", some "vouchers", [], false⟩ ""] ++
    untilRunning 0 ++ untilRunning 1 ++ onSession 0 [.report 7] ++ onSession 1 [.advance, .advance]

/-- The second session saves a finding of the first. -/
theorem finding_leaks :
    HandedOut (sideBySide ++ [.at 1 .advance]) 1 [7] ∧ ownCalls 1 (sideBySide ++ [.at 1 .advance]) ≠ [7] :=
  ⟨handedOut_of_saving .completed (by decide +kernel), by decide⟩

end ReleaseValidation.AiAgent
