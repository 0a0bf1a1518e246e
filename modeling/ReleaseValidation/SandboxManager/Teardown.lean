import ReleaseValidation.SandboxManager.SlotRelease

/-! # When a provisioned sandbox is torn down

The `finally` block learns what to remove from the row of the sandbox, and the row
names containers only after the upsert that marks the sandbox ready. A task that
leaves between the return of `provision` and that upsert closes the row without
calling the provisioner.
-/
namespace ReleaseValidation.SandboxManager.SandboxTask
open Store Programs Programs.Program

variable {max : ℕ} {env : Env} {msg : SandboxRequest} {contractsVersion : Option String} {w u : World max}

/-- The provisioner is asked to remove what it provisioned, before the row is closed. -/
def TornDown (sandboxId : Uuid) (info : Info) (w : World max) : Prop :=
  ∃ pre post, w.journal = pre ++ .teardownCalled sandboxId info.containerIds info.dockerNetwork
    info.perSandboxVolume :: post ∧ Effect.rowClosed sandboxId ∉ pre

/-- The calls and closings so far stay, and others follow. -/
def teardownsGrow : Frame (World max) where
  rel v w := ∃ l, w.teardowns = v.teardowns ++ l
  refl v := ⟨[], (List.append_nil _).symm⟩
  trans := by
    rintro u v w ⟨l, hl⟩ ⟨l', hl'⟩
    exact ⟨l ++ l', by rw [hl', hl, List.append_assoc]⟩

theorem log_teardowns (e : Effect) (w : World max) :
    (w.log e).teardowns = w.teardowns ++ [e].filter Effect.isTeardown := List.filter_append _ _

theorem grows_log (e : Effect) (w : World max) : teardownsGrow.rel w (w.log e) :=
  ⟨_, log_teardowns e w⟩

theorem closeRow_teardowns (sandboxId : Uuid) (w : World max) :
    (w.closeRow sandboxId).teardowns = w.teardowns ++ [.rowClosed sandboxId] := List.filter_append _ _

theorem keeps_closeRow : Keeps teardownsGrow
    (await (env.fault .closeRow) (Program.write (World.closeRow env.sandboxId)) : Task max Unit) := by
  refine Keeps.await (keeps_write ?_) _
  intro w
  exact ⟨_, closeRow_teardowns env.sandboxId w⟩

theorem keeps_publishClosed : Keeps teardownsGrow (publish env .publishClosed .closed none : Task max Unit) :=
  (keeps_write fun w => grows_log _ w).await _

theorem teardown_calls (hread : env.fault .teardownRead = none)
    (hc : (u.resources env.sandboxId).containerIds ≠ []) :
    teardownsGrow.rel (tornDown env (u.resources env.sandboxId) u) (teardown env u).2 := by
  unfold teardown
  rw [hread, await_none, bind_returned (read_apply _ u)]
  refine teardownsGrow.trans ?_ (bind_rel (fun _ => keeps_closeRow.bind fun _ => keeps_publishClosed) u)
  rw [when_pos hc, tornDown, if_pos hc]
  unfold callTeardown
  rw [bind_returned (write_apply _ u), await_pure_state]
  exact teardownsGrow.refl _

theorem teardown_skips (hread : env.fault .teardownRead = none) (hclose : env.fault .closeRow = none)
    (hc : (u.resources env.sandboxId).containerIds = []) :
    (teardown env u).2.teardowns = u.teardowns ++ [.rowClosed env.sandboxId] := by
  unfold teardown
  rw [hread, await_none, bind_returned (read_apply _ u), bind_returned (when_neg (not_not_intro hc) _ u),
    hclose, await_none, bind_returned (write_apply _ u)]
  have hkeeps : Keeps (Quiet env) (publish env .publishClosed .closed none : Task max Unit) :=
    keeps_publish env .publishClosed none
  have hsame : (publish env .publishClosed .closed none (u.closeRow env.sandboxId)).2.teardowns =
      (u.closeRow env.sandboxId).teardowns := congrArg Watched.teardowns (hkeeps (u.closeRow env.sandboxId))
  rw [hsame, closeRow_teardowns]

theorem releaseSlot_teardowns (u : World max) : (releaseSlot env u).2.teardowns = u.teardowns := by
  have hk : Keeps (Frame.fixing World.teardowns) (releaseSlot env : Task max Unit) :=
    ((keeps_pure ()).await _).bind fun _ => keeps_write fun _ => rfl
  exact hk u

theorem cleanup_teardowns (hp : u.provisioned = true) :
    (cleanup env u).2.teardowns = (teardown env u).2.teardowns := by
  unfold cleanup
  rw [bind_returned (read_apply _ u), when_pos hp]
  have hk : ∀ _ : Unit, Keeps (Frame.fixing World.teardowns) (releaseSlot env : Task max Unit) :=
    fun _ v => releaseSlot_teardowns v
  exact bind_rel hk u

/-! ### From the calls and closings to the journal -/

theorem tornDown_of_head {info : Info} {sandboxId : Uuid} (post : List Effect)
    (h : w.teardowns = .teardownCalled sandboxId info.containerIds info.dockerNetwork
      info.perSandboxVolume :: post) : TornDown sandboxId info w := by
  obtain ⟨pre, rest, hj, hpre, -⟩ := List.filter_eq_cons_iff.mp h
  refine ⟨pre, rest, hj, fun hmem => ?_⟩
  exact absurd rfl (hpre _ hmem)

theorem TornDown.mem {info : Info} {sandboxId : Uuid} (h : TornDown sandboxId info w) :
    .teardownCalled sandboxId info.containerIds info.dockerNetwork info.perSandboxVolume ∈ w.teardowns := by
  obtain ⟨pre, post, hj, -⟩ := h
  rw [World.teardowns, hj]
  exact List.mem_filter.mpr ⟨by simp, rfl⟩

/-- When the statements of `_teardown` succeed, a provisioned sandbox is torn down before
its row is closed exactly when it has containers and was marked ready. -/
theorem torn_down_iff (hacq : Acquired env msg contractsVersion w u) (hnew : env.sandboxId ∉ w.sandboxes)
    (hjournal : w.journal = []) (hends : (handle env msg w).1 ≠ .stopped) (hprov : Provisions env)
    (hread : env.fault .teardownRead = none) (hclose : env.fault .closeRow = none) :
    TornDown env.sandboxId (infoOf env msg contractsVersion (w.portOffsetCounter % 50)) (handle env msg w).2 ↔
      (infoOf env msg contractsVersion (w.portOffsetCounter % 50)).containerIds ≠ [] ∧
      MarksReady env msg (infoOf env msg contractsVersion (w.portOffsetCounter % 50)) := by
  rw [handle_of_acquired hacq] at hends ⊢
  obtain ⟨-, hu⟩ := acquired_world hacq
  obtain ⟨v, hv, hend, -⟩ := useSlot_ends env msg contractsVersion hends
  have hres : v.resources env.sandboxId = recorded env msg contractsVersion (w.portOffsetCounter % 50) .none := by
    have hres := congrArg Watched.resources hv
    rw [hu] at hres
    have hnone : World.resources env.sandboxId w = .none := by
      rw [World.resources, AList.lookup_eq_none.mpr hnew]
      rfl
    exact hnone ▸ hres
  have hprovisioned : v.provisioned = true := (congrArg Watched.provisioned hv).trans (decide_eq_true hprov)
  have hempty : v.teardowns = [] := by
    have ht := congrArg Watched.teardowns hv
    rw [hu] at ht
    apply ht.trans
    change w.journal.filter _ = []
    rw [hjournal]
    rfl
  rw [hend]
  constructor
  · intro htorn
    by_contra hno
    have hc : (v.resources env.sandboxId).containerIds = [] := by
      rw [hres, recorded]
      split
      next hm => exact Classical.not_not.mp fun hne => hno ⟨hne, hm.2⟩
      · rfl
    have hmem := htorn.mem
    rw [cleanup_teardowns hprovisioned, teardown_skips hread hclose hc, hempty] at hmem
    simp at hmem
  · rintro ⟨hne, hm⟩
    have hinfo : v.resources env.sandboxId =
        (infoOf env msg contractsVersion (w.portOffsetCounter % 50)).resources := by
      rw [hres, recorded, if_pos ⟨hprov, hm⟩]
    have hc : (v.resources env.sandboxId).containerIds ≠ [] := by
      rw [hinfo]
      exact hne
    obtain ⟨post, hpost⟩ := teardown_calls hread hc
    rw [tornDown, if_pos hc, log_teardowns, hempty, hinfo] at hpost
    apply tornDown_of_head post
    rw [cleanup_teardowns hprovisioned, hpost]
    rfl

/-- The run is cancelled while its sandbox is provisioned. -/
def cancelledMeanwhile : Env := oneTestEnv (fun _ => none) (fun site => site == .postCheck)

theorem provisioned_sandbox_left :
    Provisions cancelledMeanwhile ∧
    (handle cancelledMeanwhile oneTestRequest (freshWorld 5)).1 = .returned () ∧
    Effect.rowClosed "sbx-1" ∈ (handle cancelledMeanwhile oneTestRequest (freshWorld 5)).2.journal ∧
    ¬ TornDown "sbx-1" ⟨["anvil", "node"], "rvp-sbx-1", none, none⟩
      (handle cancelledMeanwhile oneTestRequest (freshWorld 5)).2 := by
  refine ⟨by decide, by decide +kernel, by decide +kernel, fun h => ?_⟩
  have hmem := h.mem
  revert hmem
  decide +kernel

theorem torn_down_smooth :
    TornDown "sbx-1" ⟨["anvil", "node"], "rvp-sbx-1", none, none⟩
      (handle (oneTestEnv (fun _ => none) fun _ => false) oneTestRequest (freshWorld 5)).2 := by
  have hacq : Acquired (oneTestEnv (fun _ => none) fun _ => false) oneTestRequest (some "2.0.0")
      (freshWorld 5) { freshWorld 5 with pool := ((Pool.empty 5).acquire "sbx-1" "run-1").2 } :=
    ⟨freshWorld 5, rfl, rfl⟩
  apply (torn_down_iff hacq (AList.notMem_empty _) rfl (by decide +kernel) (by decide) rfl rfl).mpr
  exact ⟨by decide, by decide⟩

end ReleaseValidation.SandboxManager.SandboxTask
