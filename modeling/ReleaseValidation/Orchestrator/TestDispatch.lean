import ReleaseValidation.Orchestrator.RunTriggers
import ReleaseValidation.Store.Json

/-! # The dispatch of a run's tests

Once the sandbox of a run is ready, the orchestrator selects the active definitions made
for the node version and publishes a command for each. The version is read anew from the
catalog here. A run of an AI session that only wants a sandbox is passed over.
-/
namespace ReleaseValidation.Orchestrator.TestDispatch
open Store Catalog RunTriggers

/-- The columns of `tests.definitions` that select a definition. -/
structure Definition where
  id : Uuid
  slug : String
  version : ℤ
  tags : Option (List String)
  category : Option String
  isActive : Bool
  minNodeMajorVersion : ℤ
  deriving DecidableEq, Repr

/-- A run's `metadata`, if it is an object; a filter that is absent is empty. -/
structure RunMetadata where
  tagsFilter : List String
  categoryFilter : List String
  aiSession : Bool
  dispatchedCount : Option ℕ
  deriving DecidableEq, Repr

/-- `{}`. -/
def RunMetadata.empty : RunMetadata := ⟨[], [], false, none⟩

/-- What the dispatch reads of a row of `orchestrator.runs`. -/
structure StoredRun where
  releaseTag : String
  suiteIds : List Uuid
  appAddress : Option String
  metadata : Option RunMetadata
  deriving DecidableEq, Repr

/-- `isinstance(run.metadata, dict)`, else `{}`. -/
def StoredRun.meta (r : StoredRun) : RunMetadata := r.metadata.getD .empty

/-- The fields of the sandbox's ready message. -/
abbrev SandboxMessage := List (String × Json)

/-- `sandbox_msg.get(key)`. -/
def SandboxMessage.get (msg : SandboxMessage) (key : String) : Json := (msg.lookup key).getD .null

/-- The keys that a command copies from the message as they are. -/
def forwardedKeys : List String :=
  ["anvil_port", "node_port", "graphql_port", "docker_network", "cli_container_name", "inputbox_address",
    "ether_portal_address", "erc20_portal_address", "erc721_portal_address", "erc1155_portal_address",
    "erc20_token_address", "erc721_token_address", "erc1155_token_address"]

structure TestCommand where
  runId : ℕ
  sandboxId : Uuid
  definitionId : Uuid
  definitionVersion : ℤ
  definitionSlug : String
  nodeMajorVersion : ℤ
  appAddress : Json
  forwarded : List (String × Json)

/-- `COALESCE(rc.node_major_version, 1)` over the left join with the release of the run. -/
def recordedMajor (release : Option ReleaseRow) : ℤ := (release.bind ReleaseRow.nodeMajorVersion).getD 1

/-- `tags && …`, unknown for a null array. -/
def overlaps (tags : Option (List String)) (filter : List String) : Option Bool :=
  tags.map fun ts => ts.any (filter.contains ·)

/-- The filter of the metadata that comes first, else every definition outside the standalone ones. -/
def Definition.passes (d : Definition) (m : RunMetadata) : Bool :=
  if m.tagsFilter ≠ [] then (overlaps d.tags m.tagsFilter).getD false
  else if m.categoryFilter ≠ [] then d.category.any (m.categoryFilter.contains ·)
  else ((overlaps d.tags ["standalone"]).map (!·)).getD false

/-- `is_active = true AND min_node_major_version = :node_version AND …`. -/
def Definition.selected (d : Definition) (major : ℤ) (m : RunMetadata) : Bool :=
  d.isActive && d.minNodeMajorVersion == major && d.passes m

/-- The definitions to run, cut down to the suites of the run if it names any. -/
def choose (definitions : List Definition) (major : ℤ) (m : RunMetadata) (suiteIds : List Uuid) : List Definition :=
  let rows := definitions.filter (·.selected major m)
  if suiteIds ≠ [] then rows.filter (suiteIds.contains ·.id) else rows

/-- The command that is published for a definition. -/
def Definition.command (d : Definition) (runId : ℕ) (sandboxId : Uuid) (major : ℤ) (appAddress : Json)
    (msg : SandboxMessage) : TestCommand where
  runId := runId
  sandboxId := sandboxId
  definitionId := d.id
  definitionVersion := d.version
  definitionSlug := d.slug
  nodeMajorVersion := major
  appAddress := appAddress
  forwarded := forwardedKeys.map fun key => (key, msg.get key)

/-- What a dispatch selects by, if it selects at all, publishes, and counts for the run. -/
structure Dispatch where
  selectedBy : Option ℤ
  commands : List TestCommand
  dispatchedCount : ℕ

/-- `_dispatch_tests`; the run is none if no row has its id. -/
def dispatchTests (db : Db) (definitions : List Definition) (run : Option StoredRun) (runId : ℕ) (sandboxId : Uuid)
    (msg : SandboxMessage) : Dispatch :=
  let major := recordedMajor (run.bind fun r => db .release r.releaseTag)
  let m := (run.map StoredRun.meta).getD .empty
  let suiteIds := (run.map StoredRun.suiteIds).getD []
  if m.aiSession then ⟨none, [], 0⟩
  else
    let stored := (run.bind StoredRun.appAddress).elim Json.null Json.str
    let appAddress := (msg.get "app_address").orElse stored
    let chosen := choose definitions major m suiteIds
    ⟨some major, chosen.map (·.command runId sandboxId major appAddress msg), chosen.length⟩

section Dispatches
variable (db : Db) (definitions : List Definition) {run : StoredRun} (runId : ℕ) (sandboxId : Uuid)
  (msg : SandboxMessage)

variable {definitions} in
theorem mem_choose {d : Definition} {major : ℤ} {m : RunMetadata} {suiteIds : List Uuid}
    (hd : d ∈ choose definitions major m suiteIds) : d ∈ definitions ∧ d.selected major m = true := by
  have hrows : d ∈ definitions.filter (·.selected major m) := by
    unfold choose at hd
    split at hd
    next => exact (List.mem_filter.mp hd).1
    next => exact hd
  exact List.mem_filter.mp hrows

theorem dispatch_skipped (h : run.meta.aiSession = true) :
    dispatchTests db definitions (some run) runId sandboxId msg = ⟨none, [], 0⟩ := if_pos h

theorem dispatch_published (h : run.meta.aiSession = false) : ∃ appAddress,
    dispatchTests db definitions (some run) runId sandboxId msg =
      let major := recordedMajor (db .release run.releaseTag)
      let chosen := choose definitions major run.meta run.suiteIds
      ⟨some major, chosen.map (·.command runId sandboxId major appAddress msg), chosen.length⟩ := by
  have hai : ¬ run.meta.aiSession = true := by simp [h]
  exact ⟨_, if_neg hai⟩

/-- The definitions that are chosen for a run as its row and the catalog stand. -/
def chosenFor (db : Db) (definitions : List Definition) (run : Option StoredRun) : List Definition :=
  choose definitions (recordedMajor (run.bind fun r => db .release r.releaseTag)) ((run.map StoredRun.meta).getD .empty)
    ((run.map StoredRun.suiteIds).getD [])

theorem commands_eq_nil_iff {run : Option StoredRun} :
    (dispatchTests db definitions run runId sandboxId msg).commands = [] ↔
      ((run.map StoredRun.meta).getD .empty).aiSession = true ∨ chosenFor db definitions run = [] := by
  by_cases hai : ((run.map StoredRun.meta).getD .empty).aiSession = true
  · have hskipped : dispatchTests db definitions run runId sandboxId msg = ⟨none, [], 0⟩ := if_pos hai
    rw [hskipped]
    exact iff_of_true rfl (Or.inl hai)
  · have hpublished : ∃ f, (dispatchTests db definitions run runId sandboxId msg).commands =
        (chosenFor db definitions run).map f := ⟨_, congrArg Dispatch.commands (if_neg hai)⟩
    obtain ⟨f, hf⟩ := hpublished
    rw [hf, List.map_eq_nil_iff, or_iff_right hai]

variable {db definitions runId sandboxId msg} in
/-- Every command carries the version its definition was selected by. -/
theorem command_of_dispatch {c : TestCommand}
    (hc : c ∈ (dispatchTests db definitions (some run) runId sandboxId msg).commands) :
    c.runId = runId ∧ c.nodeMajorVersion = recordedMajor (db .release run.releaseTag) ∧
      ∃ d ∈ definitions, d.selected c.nodeMajorVersion run.meta = true ∧ c.definitionId = d.id := by
  cases hai : run.meta.aiSession with
  | true =>
    rw [dispatch_skipped db definitions runId sandboxId msg hai] at hc
    cases hc
  | false =>
    obtain ⟨appAddress, hpublished⟩ := dispatch_published db definitions runId sandboxId msg hai
    rw [hpublished] at hc
    obtain ⟨d, hd, rfl⟩ := List.mem_map.mp hc
    obtain ⟨hmem, hselected⟩ := mem_choose hd
    exact ⟨rfl, rfl, d, hmem, hselected, rfl⟩

end Dispatches
end ReleaseValidation.Orchestrator.TestDispatch
