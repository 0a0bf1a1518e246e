import ReleaseValidation.Catalog.Schema

/-! # The writers of the version catalog

Every writer of the orchestrator and of the watcher is the list of statements it executes
in one transaction, in its order. The versions that the resolver returns for a node tag
are an input. A statement that violates a reference fails the transaction, which is then
rolled back.
-/
namespace ReleaseValidation.Catalog
open Runs References

/-- A release of one of the repositories, as the GitHub API describes it. -/
structure Release where
  tagName : String
  body : Option String
  named : tagName ≠ ""
  deriving DecidableEq

/-- `release.get("body") or ""`. -/
def Release.text (r : Release) : String := r.body.getD ""

/-- `x if x else None`, and no text for an empty one. -/
def present (s : Option String) : Option String := s.filter (· ≠ "")

/-- `f"v{x}" if x else None`. -/
def presentV (s : Option String) : Option String := (present s).map withV

/-- `x if x.startswith("v") else f"v{x}"`. -/
def ensureV (s : String) : String := if s.toList.head? = some 'v' then s else withV s

/-- The statements for the four tables below the release, each under the condition that its tag is
truthy, in the order SDK, contracts, devnet, CLI. -/
def chain (sdkTag contractsTag devnetTag cliTag : Option String) : List Statement :=
  (present sdkTag).toList.map insertSdk ++ (present contractsTag).toList.map insertContracts ++
    (present devnetTag).toList.map (fun tag => upsertDevnet tag contractsTag) ++
    (present cliTag).toList.map fun tag => upsertCli tag sdkTag devnetTag

section Orchestrator
variable (ch : Characters)

/-- One release of `sync_from_github`. -/
def syncNode (resolve : String → Versions) (rel : Release) : List Statement :=
  let tag := strip ch rel.tagName
  let major := nodeMajorVersion ch tag
  if tag = "" then []
  else if 2 ≤ major then
    let v := resolve tag
    chain (presentV v.sdk) ((present v.contracts).map ensureV) (present v.devnet) (presentV v.cli) ++
      [upsertRelease tag (presentV v.cli) major]
  else [upsertRelease tag none major]

/-- One release of `sync_cli_from_github`. -/
def syncCli (rel : Release) : List Statement :=
  let tag := strip ch rel.tagName
  if tag = "" then []
  else
    match leadingNumber ch tag with
    | none => []
    | some major =>
      if major < 2 then []
      else
        let body := clip5000 rel.text
        let sdkTag := (searchBody (orchestratorSdkInBodyRe ch) body).map withV
        let devnetTag := searchBody (devnetInBodyRe ch) body
        let contractsTag := (searchBody (contractsInBodyRe ch) body).map ensureV
        chain sdkTag contractsTag devnetTag none ++ [upsertCli tag sdkTag devnetTag]

/-- One release of `sync_sdk_from_github`. -/
def syncSdk (rel : Release) : List Statement :=
  let tag := strip ch rel.tagName
  if tag = "" then [] else if leadingNumber ch tag = some 0 then [insertSdk tag] else []

/-- One release of `sync_contracts_from_github`. -/
def syncContracts (rel : Release) : List Statement :=
  let tag := strip ch rel.tagName
  if tag = "" then [] else [insertContracts tag]

/-- The body of `PATCH /releases/{tag}/toolchain`. -/
structure ToolchainUpdate where
  cliVersion : Option String
  sdkVersion : Option String
  devnetVersion : Option String
  contractsVersion : Option String
  deriving DecidableEq, Repr

/-- `_vtag`. -/
def vtag (v : String) (addPrefix : Bool) : Option String :=
  if v = "" then none else some (if addPrefix then withV (lstripV v) else lstripV v)

/-- `_vtag(given) if given is not None else current`. -/
def overridden (given : Option String) (addPrefix : Bool) (current : Option String) : Option String :=
  match given with
  | some v => vtag v addPrefix
  | none => current

/-- The statements of `update_toolchain` for the tags it has settled on. -/
def toolchainStatements (tag : String) (cliTag sdkTag devnetTag contractsTag : Option String) : List Statement :=
  chain sdkTag contractsTag devnetTag cliTag ++ (setReleaseCli tag cliTag ::
    ((present cliTag).toList.map (fun cli => updateCli cli sdkTag devnetTag) ++
      (present devnetTag).toList.flatMap fun devnet => (present contractsTag).toList.map (setDevnetContracts devnet)))

/-- `update_toolchain`, no statement for a release that is not found. -/
def updateToolchain (db : Db) (tag : String) (payload : ToolchainUpdate) : List Statement :=
  match db .release tag, lookup db tag with
  | some rc, some row =>
    toolchainStatements tag (overridden payload.cliVersion true rc.cliTag)
      (overridden payload.sdkVersion true row.sdkTag) (overridden payload.devnetVersion false row.devnetTag)
      (overridden payload.contractsVersion true row.contractsTag)
  | _, _ => []

/-- `add_release`, no statement without a tag. -/
def addRelease (resolve : String → Versions) (rawTag : String) (cliVersion : Option String) : List Statement :=
  let tag := strip ch rawTag
  let major := nodeMajorVersion ch tag
  if tag = "" then []
  else if 2 ≤ major then
    match present cliVersion with
    | none =>
      let v := resolve tag
      chain (presentV v.sdk) (presentV v.contracts) (present v.devnet) (presentV v.cli) ++
        [upsertRelease tag (presentV v.cli) major]
    | some cli =>
      let cliTag := some (withV (lstripV cli))
      chain none none none cliTag ++ [upsertRelease tag cliTag major]
  else [upsertRelease tag none major]

end Orchestrator

section Watcher
variable (ch : Characters)

/-- `_upsert_node_catalog`, for the versions that `resolve_all_versions` returns. -/
def upsertNodeCatalog (versions : Versions) (release : Release) : List Statement :=
  let tag := release.tagName
  let major := nodeMajorVersion ch tag
  let v := if 2 ≤ major then versions else .unknown
  chain (presentV v.sdk) (presentV v.contracts) (present v.devnet) (presentV v.cli) ++
    [upsertRelease tag (presentV v.cli) major]

/-- What `_upsert_cli_chain` reads in the text of a CLI release. -/
structure CliTags where
  sdkTag : Option String
  devnetTag : Option String
  contractsTag : Option String
  nodeTag : Option String
  deriving DecidableEq, Repr

def cliTags (release : Release) : CliTags :=
  let body := clip5000 release.text
  { sdkTag := (searchBody (sdkInBodyRe ch) body).map withV
    devnetTag := searchBody (devnetInBodyRe ch) body
    contractsTag := (searchBody (contractsInBodyRe ch) body).map withV
    nodeTag := (searchBody (nodeBumpRe ch) body).map withV }

/-- `_upsert_cli_chain`. -/
def upsertCliChain (release : Release) : List Statement :=
  let t := cliTags ch release
  chain t.sdkTag t.contractsTag t.devnetTag none ++ [upsertCli release.tagName t.sdkTag t.devnetTag] ++
    (present t.nodeTag).toList.map fun node => backfillRelease node release.tagName

/-- `_upsert_contracts_catalog`. -/
def upsertContractsCatalog (release : Release) : List Statement := [insertContracts release.tagName]

end Watcher

/-- A transaction of a writer. -/
inductive Act
  | syncFromGithub (resolve : String → Versions) (releases : List Release)
  | syncCliFromGithub (releases : List Release)
  | syncSdkFromGithub (releases : List Release)
  | syncContractsFromGithub (releases : List Release)
  | updateToolchain (tag : String) (payload : ToolchainUpdate)
  | addRelease (resolve : String → Versions) (rawTag : String) (cliVersion : Option String)
  | upsertNodeCatalog (versions : Versions) (release : Release)
  | upsertCliChain (release : Release)
  | upsertContractsCatalog (release : Release)

def Act.statements (ch : Characters) (db : Db) : Act → List Statement
  | .syncFromGithub resolve releases => releases.flatMap (syncNode ch resolve)
  | .syncCliFromGithub releases => releases.flatMap (syncCli ch)
  | .syncSdkFromGithub releases => releases.flatMap (syncSdk ch)
  | .syncContractsFromGithub releases => releases.flatMap (syncContracts ch)
  | .updateToolchain tag payload => Catalog.updateToolchain db tag payload
  | .addRelease resolve rawTag cliVersion => Catalog.addRelease ch resolve rawTag cliVersion
  | .upsertNodeCatalog versions release => Catalog.upsertNodeCatalog ch versions release
  | .upsertCliChain release => Catalog.upsertCliChain ch release
  | .upsertContractsCatalog release => Catalog.upsertContractsCatalog release

/-- The catalog after the statements, `none` if one of them violates a reference. -/
def transaction (db : Db) (statements : List Statement) : Option Db := exec Schema.Write.run db statements

/-- The catalog after the writer has committed or been rolled back. -/
def step (ch : Characters) (db : Db) (a : Act) : Option Db := some ((transaction db (a.statements ch db)).getD db)

end ReleaseValidation.Catalog
