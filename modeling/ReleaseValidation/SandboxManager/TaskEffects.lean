import ReleaseValidation.SandboxManager.SandboxTask

/-! # What each part of the task leaves behind

Most of what `_handle` awaits changes neither the pool, nor what a teardown of the
sandbox would read, nor the calls of the provisioner's teardown. The exceptions are
the return of `provision`, which sets `sandbox_provisioned`, the upsert that marks
the sandbox ready, which alone writes its resources to the row, and the `finally`
block. Which of them are reached is decided by the environment.
-/
namespace ReleaseValidation.SandboxManager
open Store Programs Programs.Program

variable {max : ℕ}

/-- The parts of the world that only a few operations change. -/
structure Watched (max : ℕ) where
  pool : Pool max
  provisioned : Bool
  resources : Resources
  teardowns : List Effect

def World.watched (sandboxId : Uuid) (w : World max) : Watched max :=
  ⟨w.pool, w.provisioned, w.resources sandboxId, w.teardowns⟩

/-- `_is_run_cancelled` at the site answers no. -/
def Proceeds (env : Env) (site : Site) : Prop :=
  match env.fault site with
  | none => env.cancelled site = false
  | some (.before e) | some (.after e) => e.isException = true
  | some .stop => False

/-- The task comes to the return of `provisioner.provision`. -/
def Provisions (env : Env) : Prop :=
  Proceeds env .preCheck ∧ env.fault .markProvisioning = none ∧ env.fault .publishProvisioning = none ∧
    env.fault .provision = none

/-- The upsert that marks the sandbox ready takes effect. -/
def MarksReady (env : Env) (msg : SandboxRequest) (info : Info) : Prop :=
  (2 ≤ msg.nodeMajorVersion ∧ 7 ≤ info.containerIds.length → env.fault .waitV2 = none) ∧
    env.fault .readyDelay = none ∧ Proceeds env .postCheck ∧ Effective (env.fault .markReady)

instance (env : Env) (site : Site) : Decidable (Proceeds env site) := by
  unfold Proceeds
  split <;> infer_instance

instance (env : Env) : Decidable (Provisions env) := inferInstanceAs (Decidable (_ ∧ _ ∧ _ ∧ _))

instance (env : Env) (msg : SandboxRequest) (info : Info) : Decidable (MarksReady env msg info) :=
  inferInstanceAs (Decidable ((_ → _) ∧ _ ∧ _ ∧ _))

namespace SandboxTask
variable (env : Env) (msg : SandboxRequest)

/-- The watched parts are unchanged. -/
abbrev Quiet : Frame (World max) := Frame.fixing (World.watched env.sandboxId)

/-! ### Quiet operations -/

theorem log_quiet {e : Effect} (h : e.isTeardown = false) (w : World max) :
    (w.log e).watched env.sandboxId = w.watched env.sandboxId := by
  simp [World.watched, World.log, World.resources, World.teardowns, h]

theorem upsert_resources (sandboxId runId : Uuid) (set : SandboxRow → SandboxRow) (w : World max)
    (h : ∀ row, (set row).resources = row.resources) :
    (w.upsert sandboxId runId set).resources sandboxId = w.resources sandboxId := by
  simp only [World.resources, World.upsert, AList.lookup_insert, Option.map_some, Option.getD_some, h]
  cases w.sandboxes.lookup sandboxId <;> rfl

theorem keeps_publish {event : EventType} (site : Site) (reason : Option String) :
    Keeps (Quiet env) (publish env site event reason : Task max Unit) :=
  (keeps_write (fun w => log_quiet env rfl w)).await _

theorem keeps_upsert (site : Site) {set : SandboxRow → SandboxRow}
    (h : ∀ row, (set row).resources = row.resources) :
    Keeps (Quiet env) (upsertSandbox env msg site set : Task max Unit) := by
  refine (keeps_write fun w => ?_).await _
  have hres := upsert_resources env.sandboxId msg.runId set w h
  simp only [Frame.fixing, World.watched, hres]
  rfl

theorem keeps_swallow {α : Type} (site : Site) (answer fallback : α) :
    Keeps (Quiet env) (swallow (env.fault site) answer fallback : Task max α) :=
  Keeps.tryExcept ((keeps_pure answer).await _) (fun _ => keeps_pure fallback)

theorem keeps_pollOnce (aiSessionRun : Bool) (k : ℕ) :
    Keeps (Quiet env) (pollOnce env aiSessionRun k : Task max (Option Unit)) := by
  refine ((keeps_pure ()).await _).bind fun _ => ?_
  refine (keeps_swallow env _ _ _).bind fun cancelled => ?_
  refine Keeps.ite (keeps_pure _) (Keeps.ite ?_ ?_)
  · refine (keeps_swallow env _ _ _).bind fun p => ?_
    exact Keeps.ite (keeps_pure _) (Keeps.ite (keeps_pure _) (keeps_pure _))
  · refine ((keeps_pure _).await _).bind fun dispatched => ?_
    refine ((keeps_pure _).await _).bind fun p => ?_
    exact Keeps.ite (keeps_pure _) (keeps_pure _)

theorem keeps_waitForTests : Keeps (Quiet env) (waitForTests env : Task max Unit) := by
  refine (keeps_swallow env _ _ _).bind fun aiSessionRun => ?_
  refine (Keeps.forRange (keeps_pollOnce env aiSessionRun) _ _).bind fun _ => ?_
  exact keeps_pure ()

theorem keeps_announceAndWait (info : Info) :
    Keeps (Quiet env) (announceAndWait env info : Task max Unit) := by
  refine (Keeps.when ((keeps_pure ()).await _)).bind fun _ => ?_
  exact (keeps_publish env _ _).bind fun _ => keeps_waitForTests env

theorem keeps_markFailed (exc : Err) :
    Keeps (Quiet env) (markFailed env msg exc : Task max (Option Info)) := by
  have hup : Keeps (Quiet env) (upsertSandbox env msg .markFailed fun row =>
      { row with status := .failed, failureReason := some exc.text } : Task max Unit) :=
    keeps_upsert env msg _ (fun _ => rfl)
  exact hup.bind fun _ => (keeps_publish env _ _).bind fun _ => keeps_pure none

theorem keeps_markCrashed (exc : Err) : Keeps (Quiet env) (markCrashed env msg exc : Task max Unit) := by
  have hup : Keeps (Quiet env) (upsertSandbox env msg .markCrashed fun row =>
      { row with status := .failed, failureReason := some exc.text } : Task max Unit) :=
    keeps_upsert env msg _ (fun _ => rfl)
  exact hup.bind fun _ => keeps_publish env _ _

/-! ### The way to the ready mark -/

theorem proceeds_iff {site : Site} :
    Proceeds env site ↔ answered (env.fault site) (env.cancelled site) false = .returned false := by
  unfold Proceeds answered
  cases env.fault site with
  | none => simp
  | some f =>
    cases f with
    | before e | after e => cases e <;> simp [Err.isException]
    | stop => simp

theorem check_stops {site : Site} (h : ¬ Proceeds env site) (rest : Task max Unit) (w : World max) :
    ((isRunCancelled env site >>= fun cancelled => if cancelled then pure () else rest) w).2 = w := by
  have hrun : isRunCancelled env site w =
      (answered (env.fault site) (env.cancelled site) false, w) := swallow_apply _ _ _ w
  rw [proceeds_iff] at h
  cases he : answered (env.fault site) (env.cancelled site) false with
  | returned b =>
    rw [he] at h hrun
    cases b with
    | false => exact absurd rfl h
    | true => rw [bind_returned hrun]; rfl
  | raised e => rw [he] at hrun; rw [bind_raised hrun]
  | stopped => rw [he] at hrun; rw [bind_stopped hrun]

theorem check_proceeds {site : Site} (h : Proceeds env site) (rest : Task max Unit) (w : World max) :
    (isRunCancelled env site >>= fun cancelled => if cancelled then pure () else rest) w = rest w := by
  have hrun : isRunCancelled env site w = (.returned false, w) := by
    rw [isRunCancelled, swallow_apply, (proceeds_iff env).mp h]
  rw [bind_returned hrun]
  rfl

/-- What `provision` returns for the request. -/
def infoOf (contractsVersion : Option String) (portOffset : ℕ) : Info :=
  env.provision ⟨env.sandboxId, msg, portOffset, contractsVersion⟩

theorem markFailed_gives_none (exc : Err) (info : Info) (w : World max) :
    (markFailed env msg exc w).1 ≠ .returned (some info) := by
  refine bind_avoids (fun _ u => bind_avoids (fun _ v => ?_) u) w
  rw [pure_apply]
  nofun

theorem provisionBody_raises {f : Fault Err} (h : env.fault .provision = some f)
    (contractsVersion : Option String) (portOffset : ℕ) (w : World max) :
    provisionBody env msg contractsVersion portOffset w = (f.exit, w) := by
  unfold provisionBody
  rw [h]
  cases f <;> rfl

theorem provisionSandbox_fails (h : env.fault .provision ≠ none) (contractsVersion : Option String)
    (portOffset : ℕ) (w : World max) :
    (Quiet env).rel w (provisionSandbox env msg contractsVersion portOffset w).2 ∧
      ∀ info, (provisionSandbox env msg contractsVersion portOffset w).1 ≠ .returned (some info) := by
  obtain ⟨f, hf⟩ := Option.ne_none_iff_exists'.mp h
  have hbody := provisionBody_raises env msg hf contractsVersion portOffset w
  unfold provisionSandbox
  cases hexit : (f.exit : Exit Err (Option Info)) with
  | returned info => cases f <;> cases hexit
  | raised e =>
    rw [hexit] at hbody
    cases hc : e.isException with
    | true =>
      rw [tryExcept_caught hbody hc]
      exact ⟨keeps_markFailed env msg e w, fun info => markFailed_gives_none env msg e info w⟩
    | false =>
      rw [tryExcept_passed hbody hc]
      exact ⟨(Quiet env).refl w, fun info => by simp⟩
  | stopped =>
    rw [hexit] at hbody
    rw [tryExcept, hbody]
    exact ⟨(Quiet env).refl w, fun info => by simp⟩

theorem provisionSandbox_returns (h : env.fault .provision = none) (contractsVersion : Option String)
    (portOffset : ℕ) (w : World max) :
    provisionSandbox env msg contractsVersion portOffset w =
      (.returned (some (infoOf env msg contractsVersion portOffset)), { w with provisioned := true }) := by
  apply tryExcept_returned
  unfold provisionBody
  rw [h]
  rfl

theorem upsert_watched (set : SandboxRow → SandboxRow) (r : Resources) (w : World max)
    (h : ∀ row, (set row).resources = r) :
    (w.upsert env.sandboxId msg.runId set).watched env.sandboxId =
      { w.watched env.sandboxId with resources := r } := by
  have hres : (w.upsert env.sandboxId msg.runId set).resources env.sandboxId = r := by
    simp only [World.resources, World.upsert, AList.lookup_insert, Option.map_some, Option.getD_some, h]
  simp only [World.watched, hres]
  rfl

theorem waitV2_passes {info : Info}
    (h : 2 ≤ msg.nodeMajorVersion ∧ 7 ≤ info.containerIds.length → env.fault .waitV2 = none)
    (w : World max) :
    Program.when (2 ≤ msg.nodeMajorVersion ∧ 7 ≤ info.containerIds.length)
      (await (env.fault .waitV2) (pure ())) w = (.returned (), w) := by
  by_cases hc : 2 ≤ msg.nodeMajorVersion ∧ 7 ≤ info.containerIds.length
  · rw [when_pos hc, h hc]
    rfl
  · exact when_neg hc _ w

theorem runTests_unmarked {info : Info} (h : ¬ MarksReady env msg info) (w : World max) :
    (Quiet env).rel w (runTests env msg info w).2 := by
  unfold runTests
  by_cases h1 : 2 ≤ msg.nodeMajorVersion ∧ 7 ≤ info.containerIds.length → env.fault .waitV2 = none
  · rw [bind_returned (waitV2_passes env msg h1 w)]
    by_cases h2 : env.fault .readyDelay = none
    · rw [h2, await_none, bind_returned (pure_apply () w)]
      by_cases h3 : Proceeds env .postCheck
      · rw [check_proceeds env h3]
        have h4 : ¬ Effective (env.fault .markReady) := fun h4 => h ⟨h1, h2, h3, h4⟩
        unfold upsertSandbox
        cases hf : env.fault .markReady with
        | none => exact absurd (.inl hf) h4
        | some f =>
          cases f with
          | before e => rfl
          | after e => exact absurd (.inr ⟨e, hf⟩) h4
          | stop => rfl
      · rw [check_stops env h3]
        exact (Quiet env).refl w
    · rw [await_bind_state h2, await_pure_state]
      exact (Quiet env).refl w
  · obtain ⟨hc, hf⟩ := Classical.not_imp.mp h1
    rw [when_pos hc, await_bind_state hf, await_pure_state]
    exact (Quiet env).refl w

theorem runTests_marked {info : Info} (h : MarksReady env msg info) (w : World max) :
    (runTests env msg info w).2.watched env.sandboxId =
      { w.watched env.sandboxId with resources := info.resources } := by
  obtain ⟨h1, h2, h3, h4⟩ := h
  unfold runTests
  rw [bind_returned (waitV2_passes env msg h1 w), h2, await_none, bind_returned (pure_apply () w),
    check_proceeds env h3]
  have hup := upsert_watched env msg
    (fun row => { row with status := .ready, resources := info.resources }) info.resources w (fun _ => rfl)
  unfold upsertSandbox
  rcases h4 with hf | ⟨e, hf⟩
  · rw [hf, await_none, bind_returned (write_apply _ w)]
    exact (keeps_announceAndWait env info _).trans hup
  · rw [hf, bind_raised (await_after (write_apply _ w))]
    exact hup

/-! ### The body of the outer `try` -/

theorem body_announced (h1 : Proceeds env .preCheck) (h2 : env.fault .markProvisioning = none)
    (h3 : env.fault .publishProvisioning = none) (contractsVersion : Option String) (portOffset : ℕ)
    (w : World max) : ∃ v, (Quiet env).rel w v ∧ body env msg contractsVersion portOffset w =
      (provisionSandbox env msg contractsVersion portOffset >>= fun info =>
        match info with
        | none => pure ()
        | some info => runTests env msg info) v := by
  unfold body
  rw [check_proceeds env h1]
  unfold upsertSandbox publish
  rw [h2, h3, await_none, await_none, bind_returned (write_apply _ w), bind_returned (write_apply _ _)]
  refine ⟨_, ?_, rfl⟩
  refine (Quiet env).trans ?_ (log_quiet env rfl _)
  have hup : Keeps (Quiet env) (upsertSandbox env msg .markProvisioning fun row =>
      { row with status := .provisioning } : Task max Unit) := keeps_upsert env msg _ (fun _ => rfl)
  have hw := hup w
  unfold upsertSandbox at hw
  rw [h2, await_none] at hw
  exact hw

theorem body_unannounced (h1 : Proceeds env .preCheck)
    (h : ¬ (env.fault .markProvisioning = none ∧ env.fault .publishProvisioning = none))
    (contractsVersion : Option String) (portOffset : ℕ) (w : World max) :
    (Quiet env).rel w (body env msg contractsVersion portOffset w).2 := by
  have hup : Keeps (Quiet env) (upsertSandbox env msg .markProvisioning fun row =>
      { row with status := .provisioning } : Task max Unit) := keeps_upsert env msg _ (fun _ => rfl)
  have hpub : Keeps (Quiet env) (publish env .publishProvisioning .provisioning none : Task max Unit) :=
    keeps_publish env _ _
  have hw := hup w
  unfold body
  rw [check_proceeds env h1]
  unfold upsertSandbox at hw ⊢
  by_cases h2 : env.fault .markProvisioning = none
  · have h3 : env.fault .publishProvisioning ≠ none := fun h3 => h ⟨h2, h3⟩
    rw [h2, await_none] at hw ⊢
    rw [bind_returned (write_apply _ w)]
    apply (Quiet env).trans hw
    have hv := hpub ((w.upsert env.sandboxId msg.runId fun row => { row with status := .provisioning }))
    unfold publish at hv ⊢
    rw [await_bind_state h3]
    exact hv
  · rw [await_bind_state h2]
    exact hw

theorem body_unprovisioned (h : ¬ Provisions env) (contractsVersion : Option String) (portOffset : ℕ)
    (w : World max) : (Quiet env).rel w (body env msg contractsVersion portOffset w).2 := by
  by_cases h1 : Proceeds env .preCheck
  · by_cases h2 : env.fault .markProvisioning = none ∧ env.fault .publishProvisioning = none
    · have h4 : env.fault .provision ≠ none := fun h4 => h ⟨h1, h2.1, h2.2, h4⟩
      obtain ⟨v, hv, hbody⟩ := body_announced env msg h1 h2.1 h2.2 contractsVersion portOffset w
      obtain ⟨hquiet, hno⟩ := provisionSandbox_fails env msg h4 contractsVersion portOffset v
      rw [hbody]
      refine (Quiet env).trans hv ((Quiet env).trans hquiet ?_)
      cases he : provisionSandbox env msg contractsVersion portOffset v with
      | mk x u =>
        rw [he] at hno
        cases x with
        | returned r =>
          cases r with
          | none => rw [bind_returned he]; exact (Quiet env).refl u
          | some info => exact absurd rfl (hno info)
        | raised e => rw [bind_raised he]; exact (Quiet env).refl u
        | stopped => rw [bind_stopped he]; exact (Quiet env).refl u
    · exact body_unannounced env msg h1 h2 contractsVersion portOffset w
  · unfold body
    rw [check_stops env h1]
    exact (Quiet env).refl w

theorem body_provisioned (h : Provisions env) (contractsVersion : Option String) (portOffset : ℕ)
    (w : World max) : ∃ v : World max,
      v.watched env.sandboxId = { w.watched env.sandboxId with provisioned := true } ∧
      body env msg contractsVersion portOffset w =
        runTests env msg (infoOf env msg contractsVersion portOffset) v := by
  obtain ⟨h1, h2, h3, h4⟩ := h
  obtain ⟨v, hv, hbody⟩ := body_announced env msg h1 h2 h3 contractsVersion portOffset w
  refine ⟨{ v with provisioned := true }, ?_, ?_⟩
  · have hv' : v.watched env.sandboxId = w.watched env.sandboxId := hv
    rw [← hv']
    rfl
  · rw [hbody, bind_returned (provisionSandbox_returns env msg h4 contractsVersion portOffset v)]

/-- The resources that a teardown of the request's sandbox will find in its row. -/
def recorded (contractsVersion : Option String) (portOffset : ℕ) (before : Resources) : Resources :=
  if Provisions env ∧ MarksReady env msg (infoOf env msg contractsVersion portOffset) then
    (infoOf env msg contractsVersion portOffset).resources
  else before

theorem body_watched (contractsVersion : Option String) (portOffset : ℕ) {w : World max}
    (hw : w.provisioned = false) :
    (body env msg contractsVersion portOffset w).2.watched env.sandboxId =
      { w.watched env.sandboxId with
        provisioned := decide (Provisions env)
        resources := recorded env msg contractsVersion portOffset (w.resources env.sandboxId) } := by
  unfold recorded
  by_cases h : Provisions env
  · obtain ⟨v, hv, hbody⟩ := body_provisioned env msg h contractsVersion portOffset w
    rw [hbody, decide_eq_true h]
    by_cases hm : MarksReady env msg (infoOf env msg contractsVersion portOffset)
    · rw [runTests_marked env msg hm, hv, if_pos ⟨h, hm⟩]
    · have hquiet : (runTests env msg (infoOf env msg contractsVersion portOffset) v).2.watched env.sandboxId =
          v.watched env.sandboxId := runTests_unmarked env msg hm v
      rw [hquiet, hv, if_neg (fun hc => hm hc.2)]
      rfl
  · have hquiet : (body env msg contractsVersion portOffset w).2.watched env.sandboxId =
        w.watched env.sandboxId := body_unprovisioned env msg h contractsVersion portOffset w
    rw [hquiet, decide_eq_false h, if_neg (fun hc => h hc.1), ← hw]
    rfl

theorem tried_watched (contractsVersion : Option String) (portOffset : ℕ) {w : World max}
    (hw : w.provisioned = false) :
    (tryExcept (body env msg contractsVersion portOffset) Err.isException (markCrashed env msg) w).2.watched
        env.sandboxId =
      { w.watched env.sandboxId with
        provisioned := decide (Provisions env)
        resources := recorded env msg contractsVersion portOffset (w.resources env.sandboxId) } := by
  rw [← body_watched env msg contractsVersion portOffset hw]
  exact tryExcept_rel (R := Quiet env) (keeps_markCrashed env msg) w

/-- The world in which the outer `try` begins. -/
def entered (w : World max) : World max :=
  { w with portOffsetCounter := w.portOffsetCounter + 1, provisioned := false }

theorem useSlot_eq (contractsVersion : Option String) (w : World max) :
    useSlot env msg contractsVersion w =
      tryFinally (tryExcept (body env msg contractsVersion (w.portOffsetCounter % 50)) Err.isException
        (markCrashed env msg)) (cleanup env) (entered w) := rfl

theorem useSlot_ends (contractsVersion : Option String) {w : World max}
    (h : (useSlot env msg contractsVersion w).1 ≠ .stopped) :
    ∃ u : World max, u.watched env.sandboxId =
      { w.watched env.sandboxId with
        provisioned := decide (Provisions env)
        resources := recorded env msg contractsVersion (w.portOffsetCounter % 50)
          (w.resources env.sandboxId) } ∧
      (useSlot env msg contractsVersion w).2 = (cleanup env u).2 ∧ (cleanup env u).1 ≠ .stopped := by
  rw [useSlot_eq] at h ⊢
  obtain ⟨hm, hc⟩ := tryFinally_not_stopped h
  refine ⟨_, ?_, tryFinally_state hm, hc⟩
  exact tried_watched env msg contractsVersion _ rfl

/-! ### The `finally` block -/

/-- Everything that `_teardown` awaits ends well. -/
def TeardownReturns (r : Resources) : Prop :=
  env.fault .teardownRead = none ∧ (r.containerIds ≠ [] → env.fault .teardown = none) ∧
    env.fault .closeRow = none ∧ env.fault .publishClosed = none

instance (r : Resources) : Decidable (TeardownReturns env r) :=
  inferInstanceAs (Decidable (_ ∧ (_ → _) ∧ _ ∧ _))

theorem keeps_teardown_pool : Keeps (Frame.fixing World.pool) (teardown env : Task max Unit) := by
  refine ((keeps_read _).await _).bind fun sbx => ?_
  refine (Keeps.when ?_).bind fun _ => ?_
  · exact (keeps_write fun _ => rfl).bind fun _ => (keeps_pure ()).await _
  · refine ((keeps_write fun _ => rfl).await _).bind fun _ => ?_
    exact (keeps_write fun _ => rfl).await _

/-- `provisioner.teardown` is called when the row names containers. -/
def tornDown (sbx : Resources) (w : World max) : World max :=
  if sbx.containerIds ≠ [] then
    w.log (.teardownCalled env.sandboxId sbx.containerIds (sbx.dockerNetwork.getD "") sbx.snapshotVolume)
  else w

theorem callTeardown_returns {sbx : Resources} (h : sbx.containerIds ≠ [] → env.fault .teardown = none)
    (w : World max) :
    Program.when (sbx.containerIds ≠ []) (callTeardown env sbx) w = (.returned (), tornDown env sbx w) := by
  unfold tornDown
  by_cases hc : sbx.containerIds ≠ []
  · rw [when_pos hc, if_pos hc]
    unfold callTeardown
    rw [h hc]
    rfl
  · rw [when_neg hc, if_neg hc]

theorem teardown_returns {w : World max} (h : TeardownReturns env (w.resources env.sandboxId)) :
    teardown env w = (.returned (),
      ((tornDown env (w.resources env.sandboxId) w).closeRow env.sandboxId).log (.published .closed none)) := by
  obtain ⟨h1, h2, h3, h4⟩ := h
  unfold teardown publish
  rw [h1, h3, h4, await_none, await_none, await_none, bind_returned (read_apply _ w),
    bind_returned (callTeardown_returns env h2 w), bind_returned (write_apply _ _), write_apply]

theorem teardown_fails {w : World max} (h : ¬ TeardownReturns env (w.resources env.sandboxId)) (a : Unit) :
    (teardown env w).1 ≠ .returned a := by
  unfold teardown
  by_cases h1 : env.fault .teardownRead = none
  · rw [h1, await_none, bind_returned (read_apply _ w)]
    by_cases h2 : (w.resources env.sandboxId).containerIds ≠ [] → env.fault .teardown = none
    · rw [bind_returned (callTeardown_returns env h2 w)]
      by_cases h3 : env.fault .closeRow = none
      · have h4 : env.fault .publishClosed ≠ none := fun h4 => h ⟨h1, h2, h3, h4⟩
        rw [h3, await_none, bind_returned (write_apply _ _)]
        exact await_not_returned h4 _ _ a
      · exact bind_not_returned (await_not_returned h3 _ _) a
    · obtain ⟨hc, hf⟩ := Classical.not_imp.mp h2
      refine bind_not_returned (fun b => ?_) a
      rw [when_pos hc]
      exact bind_avoids (fun _ t => await_not_returned hf _ t b) w
  · exact bind_not_returned (await_not_returned h1 _ _) a

end SandboxTask

end ReleaseValidation.SandboxManager
