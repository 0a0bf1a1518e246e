import ReleaseValidation.SandboxManager.Provisioner

/-! # The account of a provisioning

What each part of `_provision_sync` makes and how far the call comes, in terms of the
operations that raise. The parts after the build phase make and remove different things.
-/
namespace ReleaseValidation.SandboxManager.Provisioner
open Store Programs Programs.Program Programs.Ledger SandboxTask

variable (env : Env) (call : ProvisionCall)

def buildPhaseAccount : Account :=
  (wrappedAccount appBuildFailed (getOrBuildAccount env)).when (doApp call = true)

def startAnvilAccount : Account :=
  (runAccount env .anvil).seq ((recordAccount [.anvil]).seq (requireAccount env.anvilHealthy (anvilUnhealthy env)))

def contractsAccount : Account :=
  if anvilCached env call then checkAccount env .cachedAddresses
  else (wrappedAccount (contractsFailed call)
    ((checkAccount env .cannonImage).seq (withTemporaryAccount env .cannonDeployer))).when
    (truthy call.contractsVersion = true)

def tokensAccount : Account :=
  ((wrappedAccount tokensFailed (replaceTemporaryAccount env .tokenDeployer)).seq
    ((checkAccount env .anvilCacheSave).recover (fun _ => true))).when
    (nodeV2 call = true ∧ anvilCached env call = false)

def runAllAccount : List Container → Account
  | [] => idle none
  | c :: cs => (runAccount env c).seq (runAllAccount cs)

/-- Up to the start of the CLI container. -/
def cliStartAccount : Account := (checkAccount env .cliImage).seq ((runAccount env .cliTools).seq (idle none))

def cliToolsAccount : Account :=
  ((cliStartAccount env).recover (fun _ => true)).when (truthy call.request.cliVersion = true)

def v2ServicesAccount : Account :=
  (runAccount env .database).seq ((requireAccount env.databaseHealthy (databaseUnhealthy call)).seq
    ((runAllAccount env rollupsServices).seq (cliToolsAccount env call)))

/-- What `_start_v2_services` returns. -/
def v2Ids : List Container :=
  if truthy call.request.cliVersion = true ∧ (cliStartAccount env).failure = none then coreServices ++ [.cliTools]
  else coreServices

def servicesAccount : Account :=
  if v2Services call then (v2ServicesAccount env call).seq (recordAccount (v2Ids env call))
  else ((runAccount env .node).seq (idle none)).seq (recordAccount [.node])

def deployAppAccount : Account :=
  (checkAccount env .anvilLookup).seq ((checkAccount env .factoryAddress).seq
    ((replaceTemporaryAccount env .hashReader).seq ((replaceTemporaryAccount env .castPredict).seq
      (replaceTemporaryAccount env .castDeploy))))

def deployAccount : Account := (wrappedAccount appDeployFailed (deployAppAccount env)).when (deploys env call = true)

def bodyAccount : Account :=
  (createAccount env .network .network).seq ((startAnvilAccount env).seq ((contractsAccount env call).seq
    ((tokensAccount env call).seq ((servicesAccount env call).seq ((deployAccount env call).seq
      (checkAccount env .compose))))))

/-- What the build phase and the block after it make, before the teardown. -/
def wholeAccount : Account := (buildPhaseAccount env call).seq (bodyAccount env call)

theorem buildPhase_follows : Follows World.Holds (buildPhase env call) () (buildPhaseAccount env call) :=
  (wrapped_follows (getOrBuildApp_follows env) appBuildFailed).when

theorem startAnvil_follows : Follows World.Holds (startAnvil env) () (startAnvilAccount env) :=
  (runContainer_follows env .anvil).seq ((record_follows [.anvil]).seq (require_follows _ _))

theorem contracts_follows : Follows World.Holds (contracts env call) () (contractsAccount env call) := by
  unfold contracts contractsAccount
  cases anvilCached env call with
  | true => exact check_follows env .cachedAddresses
  | false =>
    have hdeploy : Follows World.Holds (deployContracts env) () _ :=
      (check_follows env .cannonImage).seq (withTemporary_follows env .cannonDeployer)
    exact (wrapped_follows hdeploy (contractsFailed call)).when

theorem tokens_follows : Follows World.Holds (tokens env call) () (tokensAccount env call) := by
  have hdeploy := wrapped_follows (replaceTemporary_follows env .tokenDeployer) tokensFailed
  have hsave := (check_follows env .anvilCacheSave).recover (fun _ => true) ()
  exact (hdeploy.seq hsave).when

theorem runAll_follows (cs : List Container) : Follows World.Holds (runAll env cs) () (runAllAccount env cs) := by
  induction cs with
  | nil => exact Follows.pure ()
  | cons c cs ih => exact (runContainer_follows env c).seq ih

theorem startCliTools_follows :
    Follows World.Holds (startCliTools env call) (v2Ids env call) (cliToolsAccount env call) := by
  unfold startCliTools v2Ids cliToolsAccount
  cases htruthy : truthy call.request.cliVersion with
  | true =>
    have hstart : Follows World.Holds
        (check env .cliImage >>= fun _ => runContainer env .cliTools >>= fun _ =>
          (pure (coreServices ++ [.cliTools]) : Task (List Container)))
        (coreServices ++ [.cliTools]) (cliStartAccount env) :=
      (check_follows env .cliImage).seq ((runContainer_follows env .cliTools).seq (Follows.pure _))
    simpa [Ledger.when] using hstart.recover (fun _ => true) coreServices
  | false => simpa [Ledger.when] using Follows.pure coreServices

theorem startServices_follows : Follows World.Holds (startServices env call) () (servicesAccount env call) := by
  unfold startServices servicesAccount
  cases v2Services call with
  | true =>
    have hservices : Follows World.Holds (startV2Services env call) (v2Ids env call) (v2ServicesAccount env call) :=
      (runContainer_follows env .database).seq ((require_follows _ _).seq
        ((runAll_follows env rollupsServices).seq (startCliTools_follows env call)))
    exact hservices.bind (record_follows (v2Ids env call))
  | false =>
    have hnode : Follows World.Holds (startV1Node env) [.node] _ :=
      (runContainer_follows env .node).seq (Follows.pure _)
    exact hnode.bind (record_follows [.node])

theorem deployPhase_follows : Follows World.Holds (deployPhase env call) () (deployAccount env call) := by
  have hdeploy : Follows World.Holds (deployApp env) () (deployAppAccount env) :=
    (check_follows env .anvilLookup).seq ((check_follows env .factoryAddress).seq
      ((replaceTemporary_follows env .hashReader).seq ((replaceTemporary_follows env .castPredict).seq
        (replaceTemporary_follows env .castDeploy))))
  exact (wrapped_follows hdeploy appDeployFailed).when

theorem provisionBody_follows : Follows World.Holds (provisionBody env call) () (bodyAccount env call) :=
  (create_follows env .network .network).seq ((startAnvil_follows env).seq ((contracts_follows env call).seq
    ((tokens_follows env call).seq ((startServices_follows env call).seq ((deployPhase_follows env call).seq
      (check_follows env .compose))))))

/-! ### What the parts make -/

theorem runAll_failure (cs : List Container) :
    (runAllAccount env cs).failure = none ↔ ∀ c ∈ cs, firstError env (runs c) = none := by
  induction cs with
  | nil => simp [runAllAccount]
  | cons c cs ih => simp [runAllAccount, run_failure, ih]

theorem runAll_removes (cs : List Container) (f : Fact) : ¬ (runAllAccount env cs).removes f := by
  induction cs with
  | nil => exact id
  | cons c cs ih => simp [runAllAccount, seq_removes, ih]

/-- The containers that are run are those up to the first whose run fails. -/
theorem runAll_makes (cs : List Container) (f : Fact) :
    (runAllAccount env cs).makes f ↔ ∃ c ∈ cs, f = .present (.container c) ∧ Effective (env.fault (.create c)) ∧
      ∀ c' ∈ cs.takeWhile (· ≠ c), firstError env (runs c') = none := by
  induction cs with
  | nil => simp [runAllAccount]
  | cons c cs ih =>
    simp only [runAllAccount, seq_makes, run_makes, run_failure, runAll_removes, ih, and_false, not_false_eq_true,
      and_true, List.mem_cons, exists_eq_or_imp]
    constructor
    · rintro (⟨rfl, heff⟩ | ⟨hrun, c', hc', rfl, heff, hbefore⟩)
      · exact .inl ⟨rfl, heff, by simp⟩
      · by_cases hcc : c = c'
        · subst hcc
          exact .inl ⟨rfl, heff, by simp⟩
        · refine .inr ⟨c', hc', rfl, heff, ?_⟩
          rw [List.takeWhile_cons_of_pos (by simp [hcc])]
          intro d hd
          rcases List.mem_cons.mp hd with rfl | hd
          · exact hrun
          · exact hbefore d hd
    · rintro (⟨rfl, heff, _⟩ | ⟨c', hc', rfl, heff, hbefore⟩)
      · exact .inl ⟨rfl, heff⟩
      · by_cases hcc : c = c'
        · subst hcc
          exact .inl ⟨rfl, heff⟩
        · rw [List.takeWhile_cons_of_pos (by simp [hcc])] at hbefore
          exact .inr ⟨hbefore c (by simp), c', hc', rfl, heff, fun d hd => hbefore d (List.mem_cons_of_mem c hd)⟩

theorem startAnvil_failure : (startAnvilAccount env).failure = none ↔
    firstError env (runs .anvil) = none ∧ env.anvilHealthy = true := by
  simp [startAnvilAccount, run_failure, recordAccount, requireAccount]

theorem startAnvil_removes (f : Fact) : ¬ (startAnvilAccount env).removes f := by
  simp [startAnvilAccount, seq_removes, recordAccount, requireAccount]

theorem startAnvil_makes (f : Fact) : (startAnvilAccount env).makes f ↔
    (f = .present (.container .anvil) ∧ Effective (env.fault (.create .anvil))) ∨
      (firstError env (runs .anvil) = none ∧ f = .recorded .anvil) := by
  simp [startAnvilAccount, seq_makes, seq_removes, run_failure, recordAccount, requireAccount]

theorem contracts_failure : (contractsAccount env call).failure = none ↔
    (anvilCached env call = true → errorAt env .cachedAddresses = none) ∧
      (anvilCached env call = false → truthy call.contractsVersion = true →
        firstError env (.cannonImage :: uses .cannonDeployer) = none) := by
  cases hc : anvilCached env call <;>
    simp [contractsAccount, hc, wrappedAccount, checkAccount, withTemporary_failure, firstError_cons]

theorem tokens_failure : (tokensAccount env call).failure = none ↔
    (nodeV2 call = true → anvilCached env call = false → firstError env (uses .tokenDeployer) = none) := by
  simp [tokensAccount, wrappedAccount, replaceTemporary_failure]

theorem cliTools_failure : (cliToolsAccount env call).failure = none := by
  simp [cliToolsAccount]

theorem cliStart_failure :
    (cliStartAccount env).failure = none ↔ firstError env (.cliImage :: runs .cliTools) = none := by
  simp [cliStartAccount, checkAccount, run_failure, firstError_cons]

theorem cliTools_makes (f : Fact) : (cliToolsAccount env call).makes f ↔ truthy call.request.cliVersion = true ∧
    errorAt env .cliImage = none ∧ f = .present (.container .cliTools) ∧ Effective (env.fault (.create .cliTools)) := by
  simp [cliToolsAccount, cliStartAccount, seq_makes, checkAccount]

theorem cliTools_removes (f : Fact) : ¬ (cliToolsAccount env call).removes f := by
  simp [cliToolsAccount, cliStartAccount, seq_removes, checkAccount]

theorem services_removes (f : Fact) : ¬ (servicesAccount env call).removes f := by
  unfold servicesAccount
  split <;> simp [v2ServicesAccount, seq_removes, requireAccount, recordAccount, runAll_removes, cliTools_removes]

/-! ### How far the provisioning comes -/

def BuildDone : Prop := doApp call = true → AppBuilt env

def AnvilUp : Prop :=
  errorAt env .network = none ∧ firstError env (runs .anvil) = none ∧ env.anvilHealthy = true

def ContractsDone : Prop :=
  AnvilUp env ∧ (anvilCached env call = true → errorAt env .cachedAddresses = none) ∧
    (anvilCached env call = false → truthy call.contractsVersion = true →
      firstError env (.cannonImage :: uses .cannonDeployer) = none)

def TokensDone : Prop :=
  ContractsDone env call ∧
    (nodeV2 call = true → anvilCached env call = false → firstError env (uses .tokenDeployer) = none)

def DatabaseUp : Prop := firstError env (runs .database) = none ∧ env.databaseHealthy = true

/-- `_start_v2_services` returns. -/
def V2Starts : Prop := DatabaseUp env ∧ ∀ c ∈ rollupsServices, firstError env (runs c) = none

def ServicesUp : Prop :=
  TokensDone env call ∧ (v2Services call = true → V2Starts env) ∧
    (v2Services call = false → firstError env (runs .node) = none)

variable {env call}

theorem buildPhase_failure : (buildPhaseAccount env call).failure = none ↔ BuildDone env call := by
  simp [buildPhaseAccount, wrappedAccount, getOrBuild_failure, BuildDone]

theorem buildPhase_makes (f : Fact) :
    (buildPhaseAccount env call).makes f ↔ doApp call = true ∧ (getOrBuildAccount env).makes f := by
  simp [buildPhaseAccount, wrappedAccount]

theorem v2Services_failure : (v2ServicesAccount env call).failure = none ↔ V2Starts env := by
  simp [v2ServicesAccount, run_failure, requireAccount, runAll_failure, cliTools_failure, V2Starts, DatabaseUp,
    and_assoc]

theorem v2Services_makes (f : Fact) : (v2ServicesAccount env call).makes f ↔
    (f = .present (.container .database) ∧ Effective (env.fault (.create .database))) ∨
      (DatabaseUp env ∧ ∃ c ∈ rollupsServices, f = .present (.container c) ∧ Effective (env.fault (.create c)) ∧
        ∀ c' ∈ rollupsServices.takeWhile (· ≠ c), firstError env (runs c') = none) ∨
      (V2Starts env ∧ truthy call.request.cliVersion = true ∧ errorAt env .cliImage = none ∧
        f = .present (.container .cliTools) ∧ Effective (env.fault (.create .cliTools))) := by
  rw [← runAll_makes]
  simp only [v2ServicesAccount, seq_makes, seq_removes, run_makes, run_failure, require_failure, require_makes,
    require_removes, runAll_failure, runAll_removes, cliTools_makes, cliTools_removes, V2Starts, DatabaseUp]
  grind

theorem services_failure : (servicesAccount env call).failure = none ↔
    (v2Services call = true → V2Starts env) ∧ (v2Services call = false → firstError env (runs .node) = none) := by
  cases hv : v2Services call <;> simp [servicesAccount, hv, v2Services_failure, run_failure, recordAccount]

theorem services_makes (f : Fact) : (servicesAccount env call).makes f ↔
    (v2Services call = true ∧
        ((v2ServicesAccount env call).makes f ∨ (V2Starts env ∧ ∃ c ∈ v2Ids env call, f = .recorded c))) ∨
      (v2Services call = false ∧ ((f = .present (.container .node) ∧ Effective (env.fault (.create .node))) ∨
        (firstError env (runs .node) = none ∧ f = .recorded .node))) := by
  cases hv : v2Services call <;>
    simp [servicesAccount, hv, recordAccount, seq_makes, v2Services_failure, run_failure]

theorem mem_v2Ids {c : Container} : c ∈ v2Ids env call ↔ c ∈ coreServices ∨
    (c = .cliTools ∧ truthy call.request.cliVersion = true ∧ firstError env (.cliImage :: runs .cliTools) = none) := by
  rw [← cliStart_failure]
  unfold v2Ids
  split <;> simp [*]

/-- The part of the call that makes and removes the thing. -/
def part : Fact → ℕ
  | .present .network => 1
  | .present .snapshotVolume => 0
  | .recorded .anvil => 2
  | .recorded _ => 5
  | .present (.container c) =>
    match c with
    | .restoreCopy | .appBuilder | .snapshotLoader | .cacheCopy => 0
    | .anvil => 2
    | .cannonDeployer => 3
    | .tokenDeployer => 4
    | .hashReader | .castPredict | .castDeploy => 6
    | _ => 5

theorem network_within : (createAccount env .network .network).Within (part · = 1) := by
  rintro f (hf | ⟨rfl, _⟩)
  · exact absurd hf id
  · rfl

theorem startAnvil_within : (startAnvilAccount env).Within (part · = 2) := by
  rintro f (hf | hf)
  · exact absurd hf (startAnvil_removes env f)
  · rcases (startAnvil_makes env f).mp hf with ⟨rfl, _⟩ | ⟨_, rfl⟩ <;> rfl

theorem services_within : (servicesAccount env call).Within (part · = 5) := by
  have hrollups : ∀ c ∈ rollupsServices, part (.present (.container c)) = 5 := by decide
  have hcore : ∀ c ∈ coreServices, part (.recorded c) = 5 := by decide
  rintro f (hf | hf)
  · exact absurd hf (services_removes env call f)
  · rcases (services_makes f).mp hf with ⟨_, hf | ⟨_, c, hc, rfl⟩⟩ | ⟨_, ⟨rfl, _⟩ | ⟨_, rfl⟩⟩
    · rcases (v2Services_makes f).mp hf with ⟨rfl, _⟩ | ⟨_, c, hc, rfl, _⟩ | ⟨_, _, _, rfl, _⟩
      · rfl
      · exact hrollups c hc
      · rfl
    · rcases mem_v2Ids.mp hc with hc | ⟨rfl, _⟩
      · exact hcore c hc
      · rfl
    · rfl
    · rfl

theorem mem_rollupsServices (c : Container) : c ∈ rollupsServices ↔
    c = .evmReader ∨ c = .advancer ∨ c = .validator ∨ c = .claimer ∨ c = .jsonrpcApi := by
  simp [rollupsServices]

variable (h : RemovalsSucceed env)
include h

theorem contracts_makes (f : Fact) : (contractsAccount env call).makes f ↔
    anvilCached env call = false ∧ truthy call.contractsVersion = true ∧ errorAt env .cannonImage = none ∧
      f = .present (.container .cannonDeployer) ∧ Spills env .cannonDeployer := by
  cases hc : anvilCached env call <;>
    simp [contractsAccount, hc, wrappedAccount, checkAccount, seq_makes, withTemporary_makes h]

theorem tokens_makes (f : Fact) : (tokensAccount env call).makes f ↔
    (nodeV2 call = true ∧ anvilCached env call = false) ∧
      f = .present (.container .tokenDeployer) ∧ Spills env .tokenDeployer := by
  simp [tokensAccount, wrappedAccount, seq_makes, checkAccount, replaceTemporary_makes h]

theorem deployApp_makes (f : Fact) : (deployAppAccount env).makes f ↔
    firstError env [.anvilLookup, .factoryAddress] = none ∧
      ((f = .present (.container .hashReader) ∧ Spills env .hashReader) ∨
        (firstError env (uses .hashReader) = none ∧
          ((f = .present (.container .castPredict) ∧ Spills env .castPredict) ∨
            (firstError env (uses .castPredict) = none ∧
              f = .present (.container .castDeploy) ∧ Spills env .castDeploy)))) := by
  simp only [deployAppAccount, seq_makes, seq_removes, replaceTemporary_removes h, replaceTemporary_makes h,
    replaceTemporary_failure, checkAccount, idle_failure, idle_makes, idle_removes, firstError_cons, firstError_nil,
    Option.or_eq_none_iff]
  grind

/-! ### What the whole call makes -/

theorem contracts_within : (contractsAccount env call).Within (part · = 3) := by
  have hdeploy : (withTemporaryAccount env .cannonDeployer).Within (part · = 3) :=
    (withTemporary_within h .cannonDeployer).mono (by rintro f rfl; rfl)
  unfold contractsAccount
  split
  · exact idle_within _ _
  · exact (((idle_within _ _).seq hdeploy).rethrow _).when _

theorem tokens_within : (tokensAccount env call).Within (part · = 4) := by
  have hdeploy : (replaceTemporaryAccount env .tokenDeployer).Within (part · = 4) :=
    (replaceTemporary_within h .tokenDeployer).mono (by rintro f rfl; rfl)
  exact ((hdeploy.rethrow _).seq ((idle_within _ _).recover _)).when _

theorem deploy_within : (deployAccount env call).Within (part · = 6) := by
  have htemp : ∀ c ∈ [Container.hashReader, .castPredict, .castDeploy],
      (replaceTemporaryAccount env c).Within (part · = 6) := by
    intro c hc
    have hpart : part (.present (.container c)) = 6 := by revert c; decide
    exact (replaceTemporary_within h c).mono (by rintro f rfl; exact hpart)
  exact (((idle_within _ _).seq ((idle_within _ _).seq ((htemp .hashReader (by decide)).seq
    ((htemp .castPredict (by decide)).seq (htemp .castDeploy (by decide)))))).rethrow _).when _

theorem getOrBuild_within : (getOrBuildAccount env).Within (part · = 0) := by
  have htemp : ∀ c ∈ [Container.restoreCopy, .appBuilder, .snapshotLoader, .cacheCopy],
      (replaceTemporaryAccount env c).Within (part · = 0) := by
    intro c hc
    have hpart : part (.present (.container c)) = 0 := by revert c; decide
    exact (replaceTemporary_within h c).mono (by rintro f rfl; exact hpart)
  have hfill : ∀ site, ∀ c ∈ [Container.restoreCopy, .snapshotLoader], (fillAccount env site c).Within (part · = 0) := by
    intro site c hc
    have hc' : c ∈ [Container.restoreCopy, .appBuilder, .snapshotLoader, .cacheCopy] := by revert c; decide
    have hstale : (removeAfterAccount env [.stale .snapshotVolume] .snapshotVolume).Within (part · = 0) := by
      rintro f (⟨rfl, _⟩ | hf)
      · rfl
      · exact absurd hf id
    have hcreate : (createAccount env site .snapshotVolume).Within (part · = 0) := by
      rintro f (hf | ⟨rfl, _⟩)
      · exact absurd hf id
      · rfl
    exact hstale.seq (hcreate.seq (htemp c hc'))
  have hbuild : (buildAccount env).Within (part · = 0) :=
    (idle_within _ _).seq ((idle_within _ _).seq ((htemp .appBuilder (by decide)).seq
      ((idle_within _ _).seq (hfill .loadVolume .snapshotLoader (by decide)))))
  have hsave : (saveAccount env).Within (part · = 0) :=
    (((idle_within _ _).seq (htemp .cacheCopy (by decide))).seq (idle_within _ _)).recover _
  have hlookup : (lookupAccount env).Within (part · = 0) :=
    (idle_within _ _).seq ((hfill .restoreVolume .restoreCopy (by decide)).seq (idle_within _ _))
  refine Within.seq (((idle_within _ _).seq (idle_within _ _)).recover _) ?_
  split
  · refine Within.seq (hlookup.recover _) ?_
    split
    · exact idle_within _ _
    · exact hbuild.seq hsave
  · split
    · exact hfill .restoreVolume .restoreCopy (by decide)
    · exact hbuild

/-- The parts of the block after the build phase touch nothing that an earlier part made. -/
theorem body_makes (f : Fact) : (bodyAccount env call).makes f ↔
    (f = .present .network ∧ Effective (env.fault .network)) ∨
      (errorAt env .network = none ∧ (startAnvilAccount env).makes f) ∨
      (AnvilUp env ∧ (contractsAccount env call).makes f) ∨
      (ContractsDone env call ∧ (tokensAccount env call).makes f) ∨
      (TokensDone env call ∧ (servicesAccount env call).makes f) ∨
      (ServicesUp env call ∧ (deployAccount env call).makes f) := by
  have h7 : (checkAccount env .compose).Within (6 < part ·) := idle_within _ _
  have h6 : (((deployAccount env call).seq (checkAccount env .compose))).Within (5 < part ·) :=
    ((deploy_within h).mono (fun f hf => by omega)).seq (h7.mono (fun f hf => by omega))
  have h5 : ((servicesAccount env call).seq _).Within (4 < part ·) :=
    (services_within.mono (fun f hf => by omega)).seq (h6.mono (fun f hf => by omega))
  have h4 : ((tokensAccount env call).seq _).Within (3 < part ·) :=
    ((tokens_within h).mono (fun f hf => by omega)).seq (h5.mono (fun f hf => by omega))
  have h3 : ((contractsAccount env call).seq _).Within (2 < part ·) :=
    ((contracts_within h).mono (fun f hf => by omega)).seq (h4.mono (fun f hf => by omega))
  have h2 : ((startAnvilAccount env).seq _).Within (1 < part ·) :=
    (startAnvil_within.mono (fun f hf => by omega)).seq (h3.mono (fun f hf => by omega))
  rw [bodyAccount, network_within.seq_makes h2 (fun f hf => by omega),
    startAnvil_within.seq_makes h3 (fun f hf => by omega),
    (contracts_within h).seq_makes h4 (fun f hf => by omega),
    (tokens_within h).seq_makes h5 (fun f hf => by omega),
    services_within.seq_makes h6 (fun f hf => by omega),
    (deploy_within h).seq_makes h7 (fun f hf => by omega)]
  have hcompose : ¬ (checkAccount env .compose).makes f := id
  simp only [hcompose, and_false, or_false, startAnvil_failure, contracts_failure, tokens_failure, services_failure,
    ServicesUp, TokensDone, ContractsDone, AnvilUp, createAccount, and_or_left, and_assoc]

theorem body_within : (bodyAccount env call).Within (0 < part ·) :=
  (network_within.mono (fun f hf => by omega)).seq ((startAnvil_within.mono (fun f hf => by omega)).seq
    (((contracts_within h).mono (fun f hf => by omega)).seq (((tokens_within h).mono (fun f hf => by omega)).seq
      ((services_within.mono (fun f hf => by omega)).seq (((deploy_within h).mono (fun f hf => by omega)).seq
        (idle_within _ _))))))

theorem whole_makes (f : Fact) : (wholeAccount env call).makes f ↔
    (doApp call = true ∧ (getOrBuildAccount env).makes f) ∨ (BuildDone env call ∧ (bodyAccount env call).makes f) := by
  have hbuild : (buildPhaseAccount env call).Within (part · = 0) := ((getOrBuild_within h).rethrow _).when _
  rw [wholeAccount, hbuild.seq_makes (body_within h) (fun f hf => by omega), buildPhase_failure, buildPhase_makes]

theorem getOrBuild_makes_none {f : Fact} (hf : part f ≠ 0) : ¬ (getOrBuildAccount env).makes f :=
  fun hm => hf (getOrBuild_within h f (.inr hm))

end ReleaseValidation.SandboxManager.Provisioner
