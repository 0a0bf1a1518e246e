import ReleaseValidation.SandboxManager.TaskEffects

/-! # When a task gives its slot back

The release is the last statement of the `finally` block, after the teardown of a
provisioned sandbox. An operation of the teardown that raises leaves the block
before the release, and so does a cancellation while the pool's lock is awaited.
-/
namespace ReleaseValidation.SandboxManager.SandboxTask
open Store Programs Programs.Program

variable {max : ℕ} (env : Env) (msg : SandboxRequest)

/-- The task has come past `pool.acquire` with a slot, in the world `u`. -/
def Acquired (contractsVersion : Option String) (w u : World max) : Prop :=
  ∃ v, resolveContractsVersion env msg w = (.returned contractsVersion, v) ∧
    acquireSlot env msg v = (.returned true, u)

variable {env msg} {contractsVersion : Option String} {w u : World max}

theorem handle_of_acquired (h : Acquired env msg contractsVersion w u) :
    handle env msg w = useSlot env msg contractsVersion u := by
  obtain ⟨v, hv, hu⟩ := h
  unfold handle
  rw [bind_returned hv, bind_returned hu]
  rfl

theorem acquired_world (h : Acquired env msg contractsVersion w u) :
    w.pool.hasCapacity = true ∧ u = { w with pool := (w.pool.acquire env.sandboxId msg.runId).2 } := by
  obtain ⟨v, hv, hu⟩ := h
  have hw : v = w := by
    have hst : (resolveContractsVersion env msg w).2 = w := by
      unfold resolveContractsVersion
      split
      · rw [swallow_apply]
      · rfl
    rw [hv] at hst
    exact hst
  subst hw
  unfold acquireSlot at hu
  by_cases hf : env.fault .acquireLock = none
  · rw [hf, await_none, bind_returned (pure_apply () v), claimSlot] at hu
    obtain ⟨h1, h2⟩ := Prod.mk.inj hu
    rw [Pool.acquire_fst] at h1
    exact ⟨Exit.returned.inj h1, h2.symm⟩
  · have hno := bind_not_returned (f := fun _ => claimSlot env msg)
      (await_not_returned hf (pure ()) v) true
    exact absurd (congrArg Prod.fst hu) hno

theorem releaseSlot_mem_iff (h : env.sandboxId ∈ u.pool.active) :
    env.sandboxId ∉ (releaseSlot env u).2.pool.active ↔ env.fault .releaseLock = none := by
  unfold releaseSlot
  constructor
  · intro hnot
    by_contra hf
    rw [await_bind_state hf, await_pure_state] at hnot
    exact hnot h
  · intro hf
    rw [hf, await_none, bind_returned (pure_apply () u), write_apply]
    exact Pool.not_mem_release u.pool env.sandboxId

/-- The `finally` block releases the slot exactly when the teardown, if there is one,
returns, and the pool's lock is obtained. -/
theorem cleanup_mem_iff (h : env.sandboxId ∈ u.pool.active) :
    env.sandboxId ∉ (cleanup env u).2.pool.active ↔
      (u.provisioned = true → TeardownReturns env (u.resources env.sandboxId)) ∧
        env.fault .releaseLock = none := by
  unfold cleanup
  rw [bind_returned (read_apply _ u)]
  by_cases hp : u.provisioned = true
  · rw [when_pos hp]
    have hpool : (teardown env u).2.pool = u.pool := keeps_teardown_pool env u
    by_cases ht : TeardownReturns env (u.resources env.sandboxId)
    · have hret := teardown_returns env ht
      rw [bind_returned hret, releaseSlot_mem_iff]
      · exact ⟨fun hf => ⟨fun _ => ht, hf⟩, fun hf => hf.2⟩
      · rw [hret] at hpool
        exact hpool ▸ h
    · rw [bind_state (teardown_fails env ht), hpool]
      exact ⟨fun hnot => absurd h hnot, fun hf => absurd (hf.1 hp) ht⟩
  · rw [bind_returned (when_neg hp _ u), releaseSlot_mem_iff h]
    exact ⟨fun hf => ⟨fun hc => absurd hc hp, hf⟩, fun hf => hf.2⟩

/-- A task that acquired a slot and ends has given it back exactly when the teardown of
what it provisioned, if anything, returned, and the wait for the pool's lock did. -/
theorem slot_released_iff (hacq : Acquired env msg contractsVersion w u)
    (hnew : env.sandboxId ∉ w.sandboxes) (hends : (handle env msg w).1 ≠ .stopped) :
    env.sandboxId ∉ (handle env msg w).2.pool.active ↔
      (Provisions env → TeardownReturns env
        (recorded env msg contractsVersion (w.portOffsetCounter % 50) .none)) ∧
      env.fault .releaseLock = none := by
  rw [handle_of_acquired hacq] at hends ⊢
  obtain ⟨hcap, hu⟩ := acquired_world hacq
  obtain ⟨v, hv, hend, -⟩ := useSlot_ends env msg contractsVersion hends
  have hmem : env.sandboxId ∈ u.pool.active := by
    rw [hu]
    exact Pool.mem_acquire hcap _ _
  have hpool : v.pool = u.pool := congrArg Watched.pool hv
  have hprov : v.provisioned = decide (Provisions env) := congrArg Watched.provisioned hv
  have hres : v.resources env.sandboxId = recorded env msg contractsVersion (u.portOffsetCounter % 50)
      (u.resources env.sandboxId) := congrArg Watched.resources hv
  have hnone : u.resources env.sandboxId = .none := by
    rw [hu]
    change ((w.sandboxes.lookup env.sandboxId).map _).getD _ = _
    rw [AList.lookup_eq_none.mpr hnew]
    rfl
  have hoff : u.portOffsetCounter = w.portOffsetCounter := by rw [hu]
  rw [hend, cleanup_mem_iff (by rw [hpool]; exact hmem), hprov, hres, hnone, hoff, decide_eq_true_iff]

/-- A request whose tests are done at the first poll. -/
def oneTestEnv (fault : Site → Option (Fault Err)) (cancelled : Site → Bool) : Env where
  sandboxId := "sbx-1"
  fault := fault
  cancelled := cancelled
  contractsTag := none
  provision _ := ⟨["anvil", "node"], "rvp-sbx-1", none, none⟩
  aiSession := false
  sessions _ := (false, false)
  dispatched _ := 1
  counts _ := (0, 1)
  sessionGrace := 900
  timeout := 7200

def oneTestRequest : SandboxRequest where
  runId := "run-1"
  releaseTag := "v1.5.0"
  imageTag := "1.5.0"
  sdkVersion := none
  cliVersion := none
  devnetVersion := none
  contractsVersion := some "2.0.0"
  nodeMajorVersion := 1
  appName := none
  appGithubUrl := none

def freshWorld (max : ℕ) : World max := ⟨.empty max, ∅, 0, [], false⟩

/-- The channel is closed when the closed event is to be published. -/
def closedChannelEnv : Env :=
  oneTestEnv (fun site => if site = .publishClosed then some (.before (.exception "channel closed")) else none)
    (fun _ => false)

theorem slot_leaks :
    (handle closedChannelEnv oneTestRequest (freshWorld 5)).1 = .raised (.exception "channel closed") ∧
    closedChannelEnv.sandboxId ∈ (handle closedChannelEnv oneTestRequest (freshWorld 5)).2.pool.active := by
  decide +kernel

theorem slot_released_smooth :
    "sbx-1" ∉ (handle (oneTestEnv (fun _ => none) fun _ => false) oneTestRequest
      (freshWorld 5)).2.pool.active := by
  have hacq : Acquired (oneTestEnv (fun _ => none) fun _ => false) oneTestRequest (some "2.0.0")
      (freshWorld 5) { freshWorld 5 with pool := ((Pool.empty 5).acquire "sbx-1" "run-1").2 } :=
    ⟨freshWorld 5, rfl, rfl⟩
  refine (slot_released_iff hacq (AList.notMem_empty _) (by decide +kernel)).mpr ⟨fun _ => ?_, rfl⟩
  exact ⟨rfl, fun _ => rfl, rfl, rfl⟩

end ReleaseValidation.SandboxManager.SandboxTask
