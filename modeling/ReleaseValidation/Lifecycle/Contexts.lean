import ReleaseValidation.Store.Json

/-! # The connection details of a sandbox, on their two ways to a test

What `provision` returns goes into the event that makes the orchestrator dispatch the tests of
a run, and into the row of the sandbox, from which the agent's trigger reads it. The test
runner makes a `SandboxContext` of either command.
-/
namespace ReleaseValidation.Lifecycle.Contexts
open Programs Store

abbrev Fields := List (String × Json)

/-- `DEVNET_ENV["CARTESI_CONTRACTS_INPUT_BOX_ADDRESS"]`. -/
def devnetInputBox : String := "0x1b51e2992A2755Ba4D6F7094032DF91991a0Cfac"

/-- `DEVNET_PORTALS`. -/
def devnetPortals : Fields :=
  [("ether_portal_address", .str "0xA632c5c05812c6a6149B7af5C56117d1D2603828"),
    ("erc20_portal_address", .str "0xaca6586a0cf05bd831f2501e7b4aea550da6562d"),
    ("erc721_portal_address", .str "0x9e8851dadb2b77103928518846c4678d48b5e371"),
    ("erc1155_portal_address", .str "0x18558398dd1a8ce20956287a4da7b76ae7a96662")]

/-- The four addresses of portals, in the order of the tables. -/
structure Portals where
  ether : Json
  erc20 : Json
  erc721 : Json
  erc1155 : Json

/-- What `provision` returns. -/
structure Provisioned where
  sandboxId : Json
  runId : Json
  dockerNetwork : Json
  containerIds : Json
  anvilPort : Json
  nodePort : Json
  graphqlPort : Json
  cliContainerName : Json
  appAddress : Json
  appName : Json
  inputboxAddress : Json
  perSandboxVolume : Json
  erc20TokenAddress : Json
  erc721TokenAddress : Json
  erc1155TokenAddress : Json
  portals : Portals

/-- `d.get(key)`. -/
def lookup (key : String) (fields : Fields) : Json := (fields.lookup key).getD .null

/-- The address of the input box that `provision` returns. -/
def inputboxOf (nodeMajorVersion : ℤ) (contractAddresses : Option Fields) : Json :=
  if 2 ≤ nodeMajorVersion then
    match contractAddresses with
    | some (f :: fs) => ((f :: fs).lookup "CARTESI_CONTRACTS_INPUT_BOX_ADDRESS").getD (.str devnetInputBox)
    | _ => .str devnetInputBox
  else .str "0x59b22D57D4f067708AB0c00552767405926dc768"

/-- The addresses of the portals that `provision` returns. -/
def portalsOf (nodeMajorVersion : ℤ) (contractAddresses : Option Fields) : Portals :=
  let portal k :=
    if 2 ≤ nodeMajorVersion then (lookup k (contractAddresses.getD [])).orElse (lookup k devnetPortals) else .null
  ⟨portal "ether_portal_address", portal "erc20_portal_address", portal "erc721_portal_address",
    portal "erc1155_portal_address"⟩

/-! ### Two ways -/

/-- `sandbox_meta`. -/
def sandboxMeta (p : Provisioned) (nodeMajorVersion : ℤ) : Fields :=
  [("app_address", p.appAddress), ("app_name", p.appName), ("inputbox_address", p.inputboxAddress),
    ("ether_portal_address", p.portals.ether), ("erc20_portal_address", p.portals.erc20),
    ("erc721_portal_address", p.portals.erc721), ("erc1155_portal_address", p.portals.erc1155),
    ("erc20_token_address", p.erc20TokenAddress), ("erc721_token_address", p.erc721TokenAddress),
    ("erc1155_token_address", p.erc1155TokenAddress), ("cli_container_name", p.cliContainerName),
    ("node_major_version", .int nodeMajorVersion)]

structure SandboxRow where
  id : Json
  runId : Json
  dockerNetwork : Json
  anvilPort : Json
  nodePort : Json
  graphqlPort : Json
  metadata : Fields

/-- The row of a ready sandbox: of its metadata, what is not falsy. -/
def readyRow (p : Provisioned) (nodeMajorVersion : ℤ) (sandboxId runId : Json) : SandboxRow :=
  ⟨sandboxId, runId, p.dockerNetwork, p.anvilPort, p.nodePort, p.graphqlPort,
    (sandboxMeta p nodeMajorVersion).filter fun kv => kv.2.truthy⟩

/-- The `ready` event. -/
def readyEvent (p : Provisioned) (sandboxId runId : Json) : Fields :=
  [("run_id", runId), ("sandbox_id", sandboxId), ("event_type", .str "ready"), ("anvil_port", p.anvilPort),
    ("node_port", p.nodePort), ("graphql_port", p.graphqlPort), ("docker_network", p.dockerNetwork),
    ("container_ids", p.containerIds), ("cli_container_name", p.cliContainerName), ("app_address", p.appAddress),
    ("inputbox_address", p.inputboxAddress), ("ether_portal_address", p.portals.ether),
    ("erc20_portal_address", p.portals.erc20), ("erc721_portal_address", p.portals.erc721),
    ("erc1155_portal_address", p.portals.erc1155), ("erc20_token_address", p.erc20TokenAddress),
    ("erc721_token_address", p.erc721TokenAddress), ("erc1155_token_address", p.erc1155TokenAddress)]

structure Definition where
  id : String
  version : ℤ
  slug : String

/-- The keys that both commands copy from their source under the same name. -/
def copied : List String :=
  ["cli_container_name", "inputbox_address", "ether_portal_address", "erc20_portal_address", "erc721_portal_address",
    "erc1155_portal_address", "erc20_token_address", "erc721_token_address", "erc1155_token_address"]

/-- A command of `_dispatch_tests`. `runAppAddress` is that of the run's row. -/
def bulkCommand (event : Fields) (runId sandboxId runAppAddress : Json) (catalogMajorVersion : ℤ) (d : Definition) :
    Json :=
  .obj ([("run_id", runId), ("sandbox_id", sandboxId), ("definition_id", .str d.id),
    ("definition_version", .int d.version), ("definition_slug", .str d.slug),
    ("anvil_port", lookup "anvil_port" event), ("node_port", lookup "node_port" event),
    ("graphql_port", lookup "graphql_port" event), ("docker_network", lookup "docker_network" event),
    ("node_major_version", .int catalogMajorVersion),
    ("app_address", (lookup "app_address" event).orElse runAppAddress)] ++ copied.map fun k => (k, lookup k event))

section Commands
variable (int : Json → Except Err ℤ)

/-- The command of `trigger_test`. -/
def aiCommand (row : SandboxRow) (sandboxId sessionId resultId overrides parsed : Json) (d : Definition) :
    Except Err Json := do
  let nodeMajorVersion ← int ((row.metadata.lookup "node_major_version").getD (.int 2))
  return .obj ([("run_id", row.runId.orElse sessionId), ("sandbox_id", sandboxId), ("definition_id", .str d.id),
    ("definition_version", .int d.version), ("definition_slug", .str d.slug),
    ("anvil_port", row.anvilPort.orElse (.int 8545)), ("node_port", row.nodePort.orElse (.int 5004)),
    ("graphql_port", row.graphqlPort.orElse (.int 4000)), ("docker_network", row.dockerNetwork.orElse (.str "bridge")),
    ("node_major_version", .int nodeMajorVersion), ("app_address", lookup "app_address" row.metadata)] ++
    copied.map (fun k => (k, lookup k row.metadata)) ++
    [("session_id", sessionId), ("result_id", resultId), ("parameter_overrides", overrides),
      ("definition_parsed_override", parsed)])

/-! ### The context of a test -/

structure SandboxContext where
  sandboxId : Json
  runId : Json
  anvilPort : Json
  nodePort : Json
  graphqlPort : Json
  dockerNetwork : Json
  nodeMajorVersion : ℤ
  cliContainerName : Json
  appAddress : Json
  inputboxAddress : Json
  portals : Portals
  erc20TokenAddress : Json
  erc721TokenAddress : Json
  erc1155TokenAddress : Json

/-- `V2_DEVNET_INPUTBOX`, or `V1_DEVNET_INPUTBOX`. -/
def defaultInputbox (nodeMajorVersion : ℤ) : Json :=
  if 2 ≤ nodeMajorVersion then .str "0x1b51e2992A2755Ba4D6F7094032DF91991a0Cfac"
  else .str "0x59b22D57D4f067708AB0c00552767405926dc768"

/-- `V2_DEVNET_PORTALS`. -/
def defaultPortals : Portals :=
  ⟨.str "0xA632c5c05812c6a6149B7af5C56117d1D2603828", .str "0xaca6586a0cf05bd831f2501e7b4aea550da6562d",
    .str "0x9e8851dadb2b77103928518846c4678d48b5e371", .str "0x18558398dd1a8ce20956287a4da7b76ae7a96662"⟩

/-- `SandboxContext.__init__`, as `_handle` calls it. -/
def contextOf (msg : Json) : Except Err SandboxContext := do
  let runId ← msg.item "run_id"
  let sandboxId ← msg.item "sandbox_id"
  let appAddress ← msg.get "app_address" .null
  let _definitionId ← msg.item "definition_id"
  let _definitionVersion ← msg.item "definition_version"
  let _definitionSlug ← msg.item "definition_slug"
  let anvilPort ← msg.item "anvil_port"
  let nodePort ← msg.item "node_port"
  let graphqlPort ← msg.item "graphql_port"
  let dockerNetwork ← msg.item "docker_network"
  let nodeMajorVersion ← int (← msg.get "node_major_version" (.int 1))
  let cliContainerName ← msg.get "cli_container_name" .null
  let inputboxAddress ← msg.get "inputbox_address" .null
  let erc20TokenAddress ← msg.get "erc20_token_address" .null
  let erc721TokenAddress ← msg.get "erc721_token_address" .null
  let erc1155TokenAddress ← msg.get "erc1155_token_address" .null
  let etherPortal ← msg.get "ether_portal_address" .null
  let erc20Portal ← msg.get "erc20_portal_address" .null
  let erc721Portal ← msg.get "erc721_portal_address" .null
  let erc1155Portal ← msg.get "erc1155_portal_address" .null
  return {
    sandboxId, runId, anvilPort, nodePort, graphqlPort, dockerNetwork, nodeMajorVersion, cliContainerName, appAddress
    inputboxAddress := inputboxAddress.orElse (defaultInputbox nodeMajorVersion)
    portals := ⟨etherPortal.orElse defaultPortals.ether, erc20Portal.orElse defaultPortals.erc20,
      erc721Portal.orElse defaultPortals.erc721, erc1155Portal.orElse defaultPortals.erc1155⟩
    erc20TokenAddress := erc20TokenAddress.orElse .null
    erc721TokenAddress := erc721TokenAddress.orElse .null
    erc1155TokenAddress := erc1155TokenAddress.orElse .null }

end Commands

/-! ### What arrives -/

section Arrival
variable {int : Json → Except Err ℤ} {p : Provisioned}

theorem orElse_null_orElse (j d : Json) : (j.orElse .null).orElse d = j.orElse d := by
  unfold Json.orElse
  cases h : j.truthy with
  | true => simp [h]
  | false => simp [Json.truthy]

theorem eq_orElse_iff {j d : Json} : j = j.orElse d ↔ j.truthy = true ∨ j = d := by
  unfold Json.orElse
  cases j.truthy <;> simp

theorem orElse_eq_orElse_iff {j d d' : Json} : j.orElse d = j.orElse d' ↔ j.truthy = true ∨ d = d' := by
  unfold Json.orElse
  cases j.truthy <;> simp

/-- A default that holds something is never mistaken for what it replaces. -/
theorem truthy_of_eq_orElse {j d : Json} (hd : d.truthy = true) (h : j = j.orElse d) : j.truthy = true := by
  rcases eq_orElse_iff.mp h with hj | rfl
  · exact hj
  · exact hd

/-- Of the metadata, a key that is left out reads as a null. -/
theorem lookup_filter_truthy {fields : Fields} (hkeys : (fields.map Prod.fst).Nodup) (k : String) :
    (fields.filter fun kv => kv.2.truthy).lookup k = (fields.lookup k).filter Json.truthy := by
  induction fields with
  | nil => rfl
  | cons f fields ih =>
    obtain ⟨k', v⟩ := f
    obtain ⟨hk', hrest⟩ := List.nodup_cons.mp hkeys
    have hnone : k = k' → fields.lookup k = none := by
      rintro rfl
      rw [List.lookup_eq_none_iff]
      intro q hq
      simpa using fun h => hk' (List.mem_map.mpr ⟨q, hq, h.symm⟩)
    cases hv : v.truthy <;> by_cases hkk : k = k'
    · subst hkk
      simp [hv, ih hrest, hnone rfl, Option.filter]
    · simp [hv, ih hrest, List.lookup_cons, beq_false_of_ne hkk]
    · subst hkk
      simp [hv, Option.filter]
    · simp [hv, ih hrest, List.lookup_cons, beq_false_of_ne hkk]

theorem nodup_sandboxMeta (p : Provisioned) (nodeMajorVersion : ℤ) :
    ((sandboxMeta p nodeMajorVersion).map Prod.fst).Nodup := by
  have hkeys : (sandboxMeta p nodeMajorVersion).map Prod.fst = ["app_address", "app_name", "inputbox_address",
      "ether_portal_address", "erc20_portal_address", "erc721_portal_address", "erc1155_portal_address",
      "erc20_token_address", "erc721_token_address", "erc1155_token_address", "cli_container_name",
      "node_major_version"] := rfl
  rw [hkeys]
  decide

theorem lookup_metadata {n : ℤ} {k : String} {v : Json} (h : (sandboxMeta p n).lookup k = some v) (sandboxId runId : Json) :
    lookup k (readyRow p n sandboxId runId).metadata = v.orElse .null := by
  rw [readyRow, lookup, lookup_filter_truthy (nodup_sandboxMeta p n), h, Json.orElse]
  cases hv : v.truthy <;> simp [hv, Option.filter]

/-- The major version that the agent's trigger reads: a zero is not kept in the metadata. -/
theorem version_metadata (p : Provisioned) (n : ℤ) (sandboxId runId : Json) :
    ((readyRow p n sandboxId runId).metadata.lookup "node_major_version").getD (.int 2) =
      .int (if n = 0 then 2 else n) := by
  have hlookup : (sandboxMeta p n).lookup "node_major_version" = some (.int n) := rfl
  rw [readyRow, lookup_filter_truthy (nodup_sandboxMeta p n), hlookup]
  by_cases hn : n = 0 <;> simp [hn, Option.filter, Json.truthy]

section Made
variable {event : Fields} {runId sandboxId runAppAddress : Json} {catalog : ℤ} {d : Definition}

theorem contextOf_bulkCommand (hint : ∀ n, int (.int n) = .ok n) :
    contextOf int (bulkCommand event runId sandboxId runAppAddress catalog d) = .ok {
      sandboxId := sandboxId, runId := runId, anvilPort := lookup "anvil_port" event
      nodePort := lookup "node_port" event, graphqlPort := lookup "graphql_port" event
      dockerNetwork := lookup "docker_network" event, nodeMajorVersion := catalog
      cliContainerName := lookup "cli_container_name" event
      appAddress := (lookup "app_address" event).orElse runAppAddress
      inputboxAddress := (lookup "inputbox_address" event).orElse (defaultInputbox catalog)
      portals := ⟨(lookup "ether_portal_address" event).orElse defaultPortals.ether,
        (lookup "erc20_portal_address" event).orElse defaultPortals.erc20,
        (lookup "erc721_portal_address" event).orElse defaultPortals.erc721,
        (lookup "erc1155_portal_address" event).orElse defaultPortals.erc1155⟩
      erc20TokenAddress := (lookup "erc20_token_address" event).orElse .null
      erc721TokenAddress := (lookup "erc721_token_address" event).orElse .null
      erc1155TokenAddress := (lookup "erc1155_token_address" event).orElse .null } := by
  change (int (.int catalog) >>= fun nodeMajorVersion => _) = _
  rw [hint]
  rfl

theorem contextOf_aiCommand (hint : ∀ n, int (.int n) = .ok n) {requested : ℤ}
    {sessionId resultId overrides parsed : Json} :
    ((aiCommand int (readyRow p requested sandboxId runId) sandboxId sessionId resultId overrides parsed d).bind
      (contextOf int)) = .ok {
      sandboxId := sandboxId, runId := runId.orElse sessionId, anvilPort := p.anvilPort.orElse (.int 8545)
      nodePort := p.nodePort.orElse (.int 5004), graphqlPort := p.graphqlPort.orElse (.int 4000)
      dockerNetwork := p.dockerNetwork.orElse (.str "bridge")
      nodeMajorVersion := if requested = 0 then 2 else requested
      cliContainerName := p.cliContainerName.orElse .null, appAddress := p.appAddress.orElse .null
      inputboxAddress := p.inputboxAddress.orElse (defaultInputbox (if requested = 0 then 2 else requested))
      portals := ⟨p.portals.ether.orElse defaultPortals.ether, p.portals.erc20.orElse defaultPortals.erc20,
        p.portals.erc721.orElse defaultPortals.erc721, p.portals.erc1155.orElse defaultPortals.erc1155⟩
      erc20TokenAddress := p.erc20TokenAddress.orElse .null
      erc721TokenAddress := p.erc721TokenAddress.orElse .null
      erc1155TokenAddress := p.erc1155TokenAddress.orElse .null } := by
  have hkeep {k : String} {v : Json} (h : (sandboxMeta p requested).lookup k = some v) :
      lookup k (readyRow p requested sandboxId runId).metadata = v.orElse .null := lookup_metadata h sandboxId runId
  unfold aiCommand
  rw [version_metadata, hint]
  change (int (.int _) >>= fun nodeMajorVersion => _) = _
  rw [hint]
  have hor {k : String} {v : Json} (h : (sandboxMeta p requested).lookup k = some v) (d : Json) :
      (lookup k (readyRow p requested sandboxId runId).metadata).orElse d = v.orElse d := by
    rw [hkeep h, orElse_null_orElse]
  refine congrArg Except.ok ?_
  refine (SandboxContext.mk.injEq ..).mpr ⟨rfl, rfl, rfl, rfl, rfl, rfl, rfl, hkeep rfl, hkeep rfl, hor rfl _, ?_,
    hor rfl _, hor rfl _, hor rfl _⟩
  exact (Portals.mk.injEq ..).mpr ⟨hor rfl _, hor rfl _, hor rfl _, hor rfl _⟩

/-- Under these conditions, and no others, the two commands make the same context. -/
structure SameContext (p : Provisioned) (requested catalog : ℤ) (runId sessionId runAppAddress : Json) : Prop where
  run : runId.truthy = true ∨ runId = sessionId
  anvil : p.anvilPort.truthy = true
  node : p.nodePort.truthy = true
  graphql : p.graphqlPort.truthy = true
  network : p.dockerNetwork.truthy = true
  version : catalog = if requested = 0 then 2 else requested
  cli : p.cliContainerName.truthy = true ∨ p.cliContainerName = .null
  app : p.appAddress.truthy = true ∨ runAppAddress = .null

theorem SameContext.contextOf_eq (hint : ∀ n, int (.int n) = .ok n) {requested : ℤ}
    {sessionId resultId overrides parsed : Json} {d' : Definition}
    (h : SameContext p requested catalog runId sessionId runAppAddress) :
    contextOf int (bulkCommand (readyEvent p sandboxId runId) runId sandboxId runAppAddress catalog d) =
      (aiCommand int (readyRow p requested sandboxId runId) sandboxId sessionId resultId overrides parsed d').bind
        (contextOf int) := by
  obtain ⟨hrun, hanvil, hnode, hgraphql, hnetwork, rfl, hcli, happ⟩ := h
  rw [contextOf_bulkCommand hint, contextOf_aiCommand hint]
  refine congrArg Except.ok ((SandboxContext.mk.injEq ..).mpr ?_)
  exact ⟨rfl, eq_orElse_iff.mpr hrun, eq_orElse_iff.mpr (.inl hanvil), eq_orElse_iff.mpr (.inl hnode),
    eq_orElse_iff.mpr (.inl hgraphql), eq_orElse_iff.mpr (.inl hnetwork), rfl, eq_orElse_iff.mpr hcli,
    orElse_eq_orElse_iff.mpr happ, rfl, rfl, rfl, rfl, rfl⟩

/-- The run's tests and the agent's meet the same context if and only if the sandbox was requested for
the major version of the catalog and nothing was left open that one of the ways fills in. -/
theorem contexts_agree_iff (hint : ∀ n, int (.int n) = .ok n) (p : Provisioned) (requested catalog : ℤ)
    (sandboxId runId sessionId runAppAddress resultId overrides parsed : Json) (d d' : Definition) :
    contextOf int (bulkCommand (readyEvent p sandboxId runId) runId sandboxId runAppAddress catalog d) =
        (aiCommand int (readyRow p requested sandboxId runId) sandboxId sessionId resultId overrides parsed d').bind
          (contextOf int) ↔
      SameContext p requested catalog runId sessionId runAppAddress := by
  refine ⟨fun h => ?_, SameContext.contextOf_eq hint⟩
  rw [contextOf_bulkCommand hint, contextOf_aiCommand hint] at h
  simp only [Except.ok.injEq, SandboxContext.mk.injEq, true_and] at h
  obtain ⟨hrun, hanvil, hnode, hgraphql, hnetwork, hversion, hcli, happ, -⟩ := h
  exact ⟨eq_orElse_iff.mp hrun, truthy_of_eq_orElse rfl hanvil, truthy_of_eq_orElse rfl hnode,
    truthy_of_eq_orElse rfl hgraphql, truthy_of_eq_orElse rfl hnetwork, hversion, eq_orElse_iff.mp hcli,
    orElse_eq_orElse_iff.mp happ⟩

/-- `d[key] or default`, of the addresses of the deployer. -/
def deployed (contractAddresses : Option Fields) (key : String) (default : Json) : Json :=
  (lookup key (contractAddresses.getD [])).orElse default

theorem truthy_orElse {j d : Json} (hd : d.truthy = true) : (j.orElse d).truthy = true := by
  unfold Json.orElse
  cases h : j.truthy with
  | true => simpa using h
  | false => simpa using hd

theorem orElse_of_truthy {j d : Json} (h : j.truthy = true) : j.orElse d = j := if_pos h

theorem inputboxOf_orElse {n : ℤ} (hn : 2 ≤ n) (contractAddresses : Option Fields) :
    (inputboxOf n contractAddresses).orElse (.str devnetInputBox) =
      deployed contractAddresses "CARTESI_CONTRACTS_INPUT_BOX_ADDRESS" (.str devnetInputBox) := by
  unfold inputboxOf deployed lookup
  rw [if_pos hn]
  match contractAddresses with
  | none => rfl
  | some [] => rfl
  | some (f :: fs) =>
    cases h : (f :: fs).lookup "CARTESI_CONTRACTS_INPUT_BOX_ADDRESS" with
    | none => simp only [Option.getD_some, h, Option.getD_none]; rfl
    | some v => simp only [Option.getD_some, h]

end Made
end Arrival

/-- `int`, of the numbers that the services exchange. -/
def intOf : Json → Except Err ℤ
  | .int n => .ok n
  | .bool b => .ok (if b then 1 else 0)
  | j => .error (.exception ("int() argument must be a string, a bytes-like object or a real number, not '" ++
      j.typeName ++ "'"))

/-- The addresses of a deployment without ERC-1155 portal. -/
def someAddresses : Option Fields :=
  some [("CARTESI_CONTRACTS_INPUT_BOX_ADDRESS", .str "0xb0"), ("ether_portal_address", .str "0xe0"),
    ("erc20_portal_address", .str "0x20"), ("erc721_portal_address", .str "0x72"), ("erc1155_portal_address", .str "")]

/-- A sandbox with an application; its test tokens could not be deployed. -/
def provisioned : Provisioned where
  sandboxId := .str "s"
  runId := .str "r"
  dockerNetwork := .str "rvp-s"
  containerIds := .arr []
  anvilPort := .int 26001
  nodePort := .int 25001
  graphqlPort := .int 24001
  cliContainerName := .str "rvp-cli-s"
  appAddress := .str "0xa0"
  appName := .str "echo"
  inputboxAddress := inputboxOf 2 someAddresses
  perSandboxVolume := .null
  erc20TokenAddress := .str ""
  erc721TokenAddress := .str ""
  erc1155TokenAddress := .str ""
  portals := portalsOf 2 someAddresses

def echoDefinition : Definition := ⟨"d1", 1, "echo"⟩

theorem sameContext_provisioned : SameContext provisioned 2 2 (.str "r") (.str "session") .null :=
  ⟨.inl rfl, rfl, rfl, rfl, rfl, rfl, .inl rfl, .inl rfl⟩

theorem contexts_agree_iff_provisioned :
    contextOf intOf (bulkCommand (readyEvent provisioned (.str "s") (.str "r")) (.str "r") (.str "s") .null 2
        echoDefinition) =
      (aiCommand intOf (readyRow provisioned 2 (.str "s") (.str "r")) (.str "s") (.str "session") (.str "result")
        (.obj []) (.obj []) echoDefinition).bind (contextOf intOf) :=
  (contexts_agree_iff (fun _ => rfl) provisioned 2 2 (.str "s") (.str "r") (.str "session") .null (.str "result")
    (.obj []) (.obj []) echoDefinition echoDefinition).mpr sameContext_provisioned

end ReleaseValidation.Lifecycle.Contexts
