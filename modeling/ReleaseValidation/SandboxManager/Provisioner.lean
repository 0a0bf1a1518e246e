import ReleaseValidation.SandboxManager.AppBuild

/-! # Provisioning a sandbox

`_provision_sync`: the build phase, and then the network, the chain, the contracts, the
services of the node and the application. What raises after the build phase tears down
what has been recorded.
-/
namespace ReleaseValidation.SandboxManager.Provisioner
open Store Programs Programs.Program Programs.Ledger SandboxTask

variable (env : Env) (call : ProvisionCall)

def nodeV2 : Bool := 2 ≤ call.request.nodeMajorVersion

/-- `do_app`. -/
def doApp : Bool := truthy call.request.appGithubUrl && truthy call.request.cliVersion && nodeV2 call

def anvilCached : Bool := nodeV2 call && env.anvilCached

def v2Services : Bool := nodeV2 call && truthy call.request.sdkVersion

/-- `deploy_app`, when the services have an advancer. -/
def deploys : Bool := (doApp call || (env.deployDefaultApp && nodeV2 call)) && v2Services call

def appBuildFailed (e : String) : String := s!"App build failed: {e}"

def contractsFailed (e : String) : String :=
  let version := call.contractsVersion.getD ""
  s!"Contract deployment failed for contracts_version={version}: {e}"

def tokensFailed (e : String) : String := s!"Token deployment failed: {e}"
def appDeployFailed (e : String) : String := s!"App deploy failed: {e}"
def anvilUnhealthy : DockerError := .other s!"Anvil did not become healthy within {env.healthTimeout}s"
def databaseUnhealthy : DockerError := .other s!"Sandbox {call.sandboxId}: database did not become healthy"

def buildPhase : Task Unit :=
  when (doApp call = true) (wrapped appBuildFailed (getOrBuildApp env))

def startAnvil : Task Unit := do
  runContainer env .anvil
  write (World.record [.anvil])
  require env.anvilHealthy (anvilUnhealthy env)

/-- `_deploy_contracts_sync`. -/
def deployContracts : Task Unit := do
  check env .cannonImage
  withTemporary env .cannonDeployer

def contracts : Task Unit :=
  if anvilCached env call then check env .cachedAddresses
  else when (truthy call.contractsVersion = true) (wrapped (contractsFailed call) (deployContracts env))

def tokens : Task Unit := when (nodeV2 call = true ∧ anvilCached env call = false) do
  wrapped tokensFailed (replaceTemporary env .tokenDeployer)
  tryExcept (check env .anvilCacheSave) (fun _ => true) (fun _ => pure ())

def runAll : List Container → Task Unit
  | [] => pure ()
  | c :: cs => do
    runContainer env c
    runAll cs

def rollupsServices : List Container := [.evmReader, .advancer, .validator, .claimer, .jsonrpcApi]

/-- The services that are started before the CLI container. -/
def coreServices : List Container := .database :: rollupsServices

/-- The ids to record, with that of the CLI container when it started. -/
def startCliTools : Task (List Container) :=
  if truthy call.request.cliVersion then
    tryExcept (check env .cliImage >>= fun _ => runContainer env .cliTools >>= fun _ => pure (coreServices ++ [.cliTools]))
      (fun _ => true) (fun _ => pure coreServices)
  else pure coreServices

/-- `_start_v2_services`. -/
def startV2Services : Task (List Container) := do
  runContainer env .database
  require env.databaseHealthy (databaseUnhealthy call)
  runAll env rollupsServices
  startCliTools env call

/-- `_start_v1_node`. -/
def startV1Node : Task (List Container) := do
  runContainer env .node
  pure [.node]

def startServices : Task Unit := do
  let newIds ← if v2Services call then startV2Services env call else startV1Node env
  write (World.record newIds)

/-- `_deploy_app_sync`. -/
def deployApp : Task Unit := do
  check env .anvilLookup
  check env .factoryAddress
  replaceTemporary env .hashReader
  replaceTemporary env .castPredict
  replaceTemporary env .castDeploy

def deployPhase : Task Unit :=
  when (deploys env call = true) (wrapped appDeployFailed (deployApp env))

def provisionBody : Task Unit := do
  create env .network .network
  startAnvil env
  contracts env call
  tokens env call
  startServices env call
  deployPhase env call
  check env .compose

def removeContainers : List Container → Task Unit
  | [] => pure ()
  | c :: cs => do
    removeAfter env [.lookup (.container c), .stop c] (.container c)
    removeContainers cs

/-- `_teardown_sync`. -/
def teardown (containerIds : List Container) (perSandboxVolume : Bool) : Task Unit := do
  removeContainers env containerIds
  removeAfter env [.lookup .network, .reload] .network
  when (perSandboxVolume = true) (removeAfter env [.lookup .snapshotVolume] .snapshotVolume)

/-- `except Exception: self._teardown_sync(…); raise`. The call has a snapshot volume of its own
from the end of the build phase on. -/
def tearDownOnError (m : Task Unit) : Task Unit :=
  tryExcept m (fun _ => true) fun e => do
    let containerIds ← read World.containerIds
    teardown env containerIds (doApp call)
    raise e

/-- `_provision_sync`. -/
def provisionSync : Task (List Container) := do
  buildPhase env call
  tearDownOnError env call (provisionBody env call)
  read World.containerIds

end ReleaseValidation.SandboxManager.Provisioner
