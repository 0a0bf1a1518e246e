import ReleaseValidation.SandboxManager.ProvisionAccount

/-! # What a failed provisioning leaves

The build phase raises outside the block that tears down, `containers.run` raises after it has
created a container, and the ids of the services are recorded when the last of them has
started. What is made and not recorded is left.
-/
namespace ReleaseValidation.SandboxManager.Provisioner
open Store Programs Programs.Program Programs.Ledger SandboxTask

variable (env : Env) (call : ProvisionCall)

/-- What the teardown does with a resource before it removes it. -/
def beforeRemoval : Resource → List Site
  | .container c => [.lookup (.container c), .stop c]
  | .network => [.lookup .network, .reload]
  | .snapshotVolume => [.lookup .snapshotVolume]

def TearsDown (r : Resource) : Prop := firstError env (beforeRemoval r) = none

/-- What the teardown is told to remove. -/
def Named (containerIds : List Container) (perSandboxVolume : Bool) : Resource → Prop
  | .container c => c ∈ containerIds
  | .network => True
  | .snapshotVolume => perSandboxVolume = true

/-- What the teardown of a failed call is told to remove. -/
def Recorded : Resource → Prop
  | .container c => (wholeAccount env call).makes (.recorded c)
  | .network => True
  | .snapshotVolume => doApp call = true

/-- The call comes to the run of the container. -/
def Reaches : Container → Prop
  | .restoreCopy => doApp call = true ∧ Restores env ∧ errorAt env .restoreVolume = none
  | .appBuilder => doApp call = true ∧ Builds env ∧ firstError env [.clone, .buildImage] = none
  | .snapshotLoader =>
    doApp call = true ∧ Builds env ∧ firstError env compiles = none ∧ errorAt env .loadVolume = none
  | .cacheCopy =>
    doApp call = true ∧ Misses env ∧ firstError env (compiles ++ fills .loadVolume .snapshotLoader) = none ∧
      errorAt env .cacheVolume = none
  | .anvil => BuildDone env call ∧ errorAt env .network = none
  | .cannonDeployer =>
    BuildDone env call ∧ AnvilUp env ∧ anvilCached env call = false ∧ truthy call.contractsVersion = true ∧
      errorAt env .cannonImage = none
  | .tokenDeployer =>
    BuildDone env call ∧ ContractsDone env call ∧ nodeV2 call = true ∧ anvilCached env call = false
  | .node => BuildDone env call ∧ TokensDone env call ∧ v2Services call = false
  | .database => BuildDone env call ∧ TokensDone env call ∧ v2Services call = true
  | .cliTools =>
    BuildDone env call ∧ TokensDone env call ∧ v2Services call = true ∧ V2Starts env ∧
      truthy call.request.cliVersion = true ∧ errorAt env .cliImage = none
  | .hashReader =>
    BuildDone env call ∧ ServicesUp env call ∧ deploys env call = true ∧
      firstError env [.anvilLookup, .factoryAddress] = none
  | .castPredict =>
    BuildDone env call ∧ ServicesUp env call ∧ deploys env call = true ∧
      firstError env [.anvilLookup, .factoryAddress] = none ∧ firstError env (uses .hashReader) = none
  | .castDeploy =>
    BuildDone env call ∧ ServicesUp env call ∧ deploys env call = true ∧
      firstError env [.anvilLookup, .factoryAddress] = none ∧ firstError env (uses .hashReader) = none ∧
      firstError env (uses .castPredict) = none
  | c =>
    BuildDone env call ∧ TokensDone env call ∧ v2Services call = true ∧ DatabaseUp env ∧
      ∀ c' ∈ rollupsServices.takeWhile (· ≠ c), firstError env (runs c') = none

/-- The containers whose ids are recorded. The others are removed where they are used. -/
def lasting : List Container := [.anvil, .node, .cliTools] ++ coreServices

/-- `containers.run` returns, and for the services so does `_start_v2_services`. -/
def Finished (c : Container) : Prop :=
  if c ∈ coreServices then V2Starts env else firstError env (runs c) = none

def Removed (c : Container) : Prop := Finished env c ∧ (c ∈ lasting → TearsDown env (.container c))

structure Clean : Prop where
  containers : ∀ c, Reaches env call c → Effective (env.fault (.create c)) → Removed env c
  network : BuildDone env call → Effective (env.fault .network) → TearsDown env .network
  volume : doApp call = true → VolumeCreated env → AppBuilt env ∧ TearsDown env .snapshotVolume

variable {env call}

theorem tearDownOnError_raises {m : Task Unit} {x : Account} (hm : Follows World.Holds m () x) {w : World}
    {f : World → List Container} {e : DockerError}
    (hraise : ((tearDownOnError env call m >>= fun _ => read f) w).1 = .raised e) : x.failure ≠ none := by
  intro hx
  have hexit := hm.exit w
  rw [hx] at hexit
  have hp : m w = (.returned (), (m w).2) := Prod.ext hexit rfl
  rw [tearDownOnError, bind_returned (tryExcept_returned hp)] at hraise
  cases hraise

section Removals
variable (h : RemovalsSucceed env)
include h

/-! ### The teardown -/

theorem removeContainers_follows (cs : List Container) :
    Follows World.Holds (removeContainers env cs) ()
      ⟨none, fun f => ∃ c ∈ cs, f = .present (.container c) ∧ TearsDown env (.container c), fun _ => False⟩ := by
  induction cs with
  | nil => exact (Follows.pure ()).congr rfl (fun f => by simp) (fun f => .rfl)
  | cons c cs ih =>
    have hseq := (removeAfter_follows env [.lookup (.container c), .stop c] (.container c)).seq ih
    exact hseq.congr rfl (fun f => by simp [seq_removes, removeAfter_removes h, TearsDown, beforeRemoval])
      (fun f => by simp [seq_makes])

theorem teardown_follows (containerIds : List Container) (perSandboxVolume : Bool) :
    Follows World.Holds (teardown env containerIds perSandboxVolume) ()
      ⟨none, fun f => ∃ r, f = .present r ∧ Named containerIds perSandboxVolume r ∧ TearsDown env r,
        fun _ => False⟩ := by
  have hnetwork := removeAfter_follows env (beforeRemoval .network) .network
  have hvolume := (removeAfter_follows env (beforeRemoval .snapshotVolume) .snapshotVolume).when
    (p := perSandboxVolume = true)
  have hseq := (removeContainers_follows h containerIds).seq (hnetwork.seq hvolume)
  refine hseq.congr ?_ (fun f => ?_) (fun f => by simp [seq_makes])
  · simp only [seq, Ledger.when, removeAfterAccount, Option.none_or]
    split <;> rfl
  · simp only [seq_removes, removeAfter_removes h, when_removes, removeAfter_failure, true_and]
    constructor
    · rintro (⟨c, hc, rfl, htears⟩ | ⟨rfl, htears⟩ | ⟨hvol, rfl, htears⟩)
      · exact ⟨.container c, rfl, hc, htears⟩
      · exact ⟨.network, rfl, trivial, htears⟩
      · exact ⟨.snapshotVolume, rfl, hvol, htears⟩
    · rintro ⟨r, rfl, hnamed, htears⟩
      cases r with
      | container c => exact .inl ⟨c, hnamed, rfl, htears⟩
      | network => exact .inr (.inl ⟨rfl, htears⟩)
      | snapshotVolume => exact .inr (.inr ⟨hnamed, rfl, htears⟩)

/-- A block that fails leaves what it has made and the teardown does not remove. -/
theorem tearDownOnError_leaves {m : Task Unit} {x : Account} (hm : Follows World.Holds m () x)
    (hx : x.failure ≠ none) (w : World) (r : Resource) :
    r ∈ (tearDownOnError env call m w).2.existing ↔ r ∈ (m w).2.existing ∧
      ¬ (Named (m w).2.containerIds (doApp call) r ∧ TearsDown env r) := by
  have hexit := hm.exit w
  cases hp : m w with
  | mk y w' =>
    rw [hp] at hexit
    obtain ⟨e, he⟩ := Option.ne_none_iff_exists'.mp hx
    rw [he] at hexit
    cases hexit
    have hteardown := teardown_follows h w'.containerIds (doApp call)
    have hreturns := hteardown.exit w'
    have hr : r ∈ (teardown env w'.containerIds (doApp call) w').2.existing ↔ _ := hteardown.after w' (.present r)
    rw [tearDownOnError, tryExcept_caught hp rfl, bind_returned (read_apply World.containerIds w')]
    cases ht : teardown env w'.containerIds (doApp call) w' with
    | mk z w'' =>
      rw [ht] at hreturns hr
      cases hreturns
      rw [bind_returned ht, raise_apply, hr]
      simp [World.Holds]

theorem provisionSync_leaves {e : DockerError} (hraise : (provisionSync env call .nothing).1 = .raised e)
    (r : Resource) :
    r ∈ (provisionSync env call .nothing).2.existing ↔ (wholeAccount env call).makes (.present r) ∧
      ¬ ((buildPhaseAccount env call).failure = none ∧ Recorded env call r ∧ TearsDown env r) := by
  have hbuild := buildPhase_follows env call
  have hmade := hbuild.from_nothing World.not_holds_nothing
  have hexit := hbuild.exit .nothing
  unfold provisionSync at hraise ⊢
  cases hb : buildPhase env call .nothing with
  | mk x w =>
    rw [hb] at hmade hexit
    cases hA : (buildPhaseAccount env call).failure with
    | some e' =>
      rw [hA] at hexit
      cases hexit
      rw [bind_raised hb]
      have hr : r ∈ w.existing ↔ _ := hmade (.present r)
      simpa [wholeAccount, seq_makes, hA] using hr
    | none =>
      rw [hA] at hexit
      cases hexit
      rw [bind_returned hb] at hraise ⊢
      have hbody := provisionBody_follows env call
      have hwhole : ∀ f, (provisionBody env call w).2.Holds f ↔ (wholeAccount env call).makes f := by
        intro f
        rw [hbody.after, hmade, wholeAccount, seq_makes, hA]
        simp
      have hnamed : Named (provisionBody env call w).2.containerIds (doApp call) r ↔ Recorded env call r := by
        cases r with
        | container c => exact hwhole (.recorded c)
        | network | snapshotVolume => exact .rfl
      have hr : r ∈ (provisionBody env call w).2.existing ↔ _ := hwhole (.present r)
      have hstate : ((tearDownOnError env call (provisionBody env call) >>= fun _ => read World.containerIds) w).2 =
          (tearDownOnError env call (provisionBody env call) w).2 :=
        bind_rel (R := Frame.fixing id) (fun _ => keeps_read World.containerIds) w
      rw [hstate, tearDownOnError_leaves h hbody (tearDownOnError_raises hbody hraise), hr, hnamed]
      simp

theorem whole_present (c : Container) : (wholeAccount env call).makes (.present (.container c)) ↔
    Reaches env call c ∧ Effective (env.fault (.create c)) ∧ (c ∉ lasting → ¬ Finished env c) := by
  have hbuild : part (.present (.container c)) ≠ 0 → ¬ (getOrBuildAccount env).makes (.present (.container c)) :=
    getOrBuild_makes_none h
  rw [whole_makes h, body_makes h]
  cases c <;>
    simp [part, built_restoreCopy h, built_appBuilder h, built_snapshotLoader h, built_cacheCopy h, startAnvil_makes,
      contracts_makes h, tokens_makes h, services_makes, v2Services_makes, deployAccount, wrappedAccount,
      deployApp_makes h, Spills, Reaches, Finished, lasting, coreServices, mem_rollupsServices] at hbuild ⊢ <;>
    grind

theorem whole_recorded (c : Container) : (wholeAccount env call).makes (.recorded c) ↔
    Reaches env call c ∧ c ∈ lasting ∧ Finished env c := by
  have hbuild : ¬ (getOrBuildAccount env).makes (.recorded c) := getOrBuild_makes_none h (by cases c <;> decide)
  have hbefore : V2Starts env → DatabaseUp env ∧
      ∀ c' ∈ rollupsServices.takeWhile (· ≠ c), firstError env (runs c') = none :=
    fun hv => ⟨hv.1, fun c' hc' => hv.2 c' ((List.takeWhile_sublist _).subset hc')⟩
  rw [whole_makes h, body_makes h]
  cases c <;>
    simp [hbuild, startAnvil_makes, contracts_makes h, tokens_makes h, services_makes, v2Services_makes, deployAccount,
      wrappedAccount, deployApp_makes h, mem_v2Ids, firstError_cons, Reaches, Finished, lasting, coreServices,
      mem_rollupsServices] at hbefore ⊢ <;>
    grind

theorem container_left_iff {e : DockerError} (hraise : (provisionSync env call .nothing).1 = .raised e)
    (c : Container) :
    .container c ∈ (provisionSync env call .nothing).2.existing ↔
      Reaches env call c ∧ Effective (env.fault (.create c)) ∧ ¬ Removed env c := by
  have hdone : Reaches env call c ∧ c ∈ lasting → BuildDone env call := by
    rintro ⟨hreaches, hlasting⟩
    cases c <;> first | exact hreaches.1 | exact absurd hlasting (by decide)
  rw [provisionSync_leaves h hraise, buildPhase_failure, whole_present h, Recorded, whole_recorded h, Removed]
  by_cases hlasting : c ∈ lasting
  · simp only [hlasting, not_true_eq_false, false_imp_iff, and_true, true_and, true_imp_iff]
    grind
  · simp only [hlasting, not_false_eq_true, true_imp_iff, false_and, and_false, false_imp_iff, and_true]

theorem network_left_iff {e : DockerError} (hraise : (provisionSync env call .nothing).1 = .raised e) :
    .network ∈ (provisionSync env call .nothing).2.existing ↔
      BuildDone env call ∧ Effective (env.fault .network) ∧ ¬ TearsDown env .network := by
  have hbuild : ¬ (getOrBuildAccount env).makes (.present .network) := getOrBuild_makes_none h (by decide)
  rw [provisionSync_leaves h hraise, buildPhase_failure, whole_makes h, body_makes h]
  simp [hbuild, startAnvil_makes, contracts_makes h, tokens_makes h, services_makes, v2Services_makes, deployAccount,
    wrappedAccount, deployApp_makes h, Recorded]
  grind

theorem volume_left_iff {e : DockerError} (hraise : (provisionSync env call .nothing).1 = .raised e) :
    .snapshotVolume ∈ (provisionSync env call .nothing).2.existing ↔
      doApp call = true ∧ VolumeCreated env ∧ ¬ (AppBuilt env ∧ TearsDown env .snapshotVolume) := by
  have hbody : ¬ (bodyAccount env call).makes (.present .snapshotVolume) :=
    fun hm => absurd (body_within h _ (.inr hm)) (by decide)
  rw [provisionSync_leaves h hraise, buildPhase_failure, whole_makes h, built_volume h]
  simp only [hbody, and_false, or_false, Recorded, BuildDone]
  grind

end Removals

/-- Every operation of Docker succeeds. -/
def workingDocker (anvilHealthy databaseHealthy : Bool) : Env where
  fault _ := none
  running _ := nofun
  anvilHealthy := anvilHealthy
  databaseHealthy := databaseHealthy
  cachedBuild := false
  anvilCached := true
  deployDefaultApp := true
  healthTimeout := 60

def v2Call : ProvisionCall where
  sandboxId := "sandbox-1"
  request := ⟨"run-1", "v2.0.0", "cartesi/rollups-node:2.0.0", some "0.12.0", none, none, some "2.1.0", 2, none, none⟩
  portOffset := 0
  contractsVersion := some "2.1.0"

end ReleaseValidation.SandboxManager.Provisioner
