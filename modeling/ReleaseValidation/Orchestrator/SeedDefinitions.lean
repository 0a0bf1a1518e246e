import ReleaseValidation.Foundations.Fences
import ReleaseValidation.Orchestrator.DefinitionRows
import ReleaseValidation.TestRunner.Interpreter

/-! # Definitions that are seeded

The seeding script stores each document of a directory, with a category that it looks up in a
spreadsheet, then in the front matter, and at last by the tags and the slug.
-/
namespace ReleaseValidation.Orchestrator.SeedDefinitions
open Fences JsonTexts Programs Store TestDefinitions TestRunner.Interpreter

/-- `FRONTMATTER_RE`: `^---\s*\n(.*?)\n---\s*\n`. -/
def frontmatterRe : Fence := loose "---".toList false

/-- `_PHASE_TAG_NAMES`. -/
def phaseTagNames : List (String × String) :=
  [("phase1", "Phase 1: Environment"), ("phase2", "Phase 2: Clean Restarts"),
    ("phase3", "Phase 3: Inputs (Local)"), ("phase4", "Phase 4: Inputs (Remote)"),
    ("phase5", "Phase 5: VM Outputs"), ("phase6", "Phase 6: Voucher Execution"),
    ("phase7", "Phase 7: Token Portals"), ("phase8", "Phase 8: Persistence & Recovery"),
    ("phase9", "Phase 9: Chaos & Fault Tolerance"), ("phase10", "Phase 10: Multi-App & Consensus"),
    ("phase11", "Phase 11: Security & Limits"), ("phase12", "Phase 12: Internal CLI"),
    ("phase13", "Phase 13: Telemetry & Health"), ("phase14", "Phase 14: Configuration"),
    ("phase15", "Phase 15: Inspect Service"), ("phase16", "Phase 16: PRT - Dispute Protocol"),
    ("phase17", "Phase 17: Performance & Load")]

/-- `_SLUG_CATEGORY`: beginnings of slugs, with a phase and a category. -/
def slugCategory : List (String × String × String) :=
  [("cli-doctor-", "Phase 1: Environment", "CLI - doctor"),
    ("cli-create-", "Phase 1: Environment", "CLI - create"),
    ("cli-build-", "Phase 1: Environment", "CLI - build"), ("cli-run-", "Phase 1: Environment", "CLI - run"),
    ("cli-deploy-", "Phase 1: Environment", "CLI - deploy"),
    ("cli-deposit-", "Phase 1: Environment", "CLI - deposit"),
    ("cli-send-", "Phase 1: Environment", "CLI - send"), ("cli-logs-", "Phase 1: Environment", "CLI - logs"),
    ("cli-shell-", "Phase 1: Environment", "CLI - shell"),
    ("cli-status-", "Phase 1: Environment", "CLI - status"),
    ("cli-version-", "Phase 1: Environment", "CLI - version"),
    ("cli-machine-hash-", "Phase 1: Environment", "CLI - hash"),
    ("cli-hash-", "Phase 1: Environment", "CLI - hash"), ("cli-help-", "Phase 1: Environment", "CLI - help"),
    ("cli-clean-", "Phase 1: Environment", "CLI - clean"),
    ("cli-address-book-", "Phase 1: Environment", "CLI - address-book"),
    ("cli-cast-interop-", "Phase 1: Environment", "CLI - tooling"),
    ("restart-", "Phase 2: Clean Restarts", "Services"), ("erc1155-", "Phase 3: Inputs (Local)", "ERC1155"),
    ("erc20-", "Phase 3: Inputs (Local)", "ERC20"), ("erc721-", "Phase 3: Inputs (Local)", "ERC721"),
    ("ether-", "Phase 3: Inputs (Local)", "ETH"), ("advance-state-", "Phase 3: Inputs (Local)", "ETH"),
    ("generic-", "Phase 3: Inputs (Local)", "Generic"),
    ("cloud-erc1155-", "Phase 4: Inputs (Remote)", "ERC1155"),
    ("cloud-erc20-", "Phase 4: Inputs (Remote)", "ERC20"),
    ("cloud-erc721-", "Phase 4: Inputs (Remote)", "ERC721"), ("cloud-eth-", "Phase 4: Inputs (Remote)", "ETH"),
    ("cloud-ether-", "Phase 4: Inputs (Remote)", "ETH"),
    ("cloud-generic-", "Phase 4: Inputs (Remote)", "Generic"),
    ("cloud-massive-", "Phase 4: Inputs (Remote)", "Edge Cases"),
    ("cloud-same-block-", "Phase 4: Inputs (Remote)", "Edge Cases"),
    ("notice-", "Phase 5: VM Outputs", "Notices"), ("oversized-notice-", "Phase 5: VM Outputs", "Notices"),
    ("report-", "Phase 5: VM Outputs", "Reports"), ("voucher-generation-", "Phase 5: VM Outputs", "Vouchers"),
    ("delegatecall-", "Phase 6: Voucher Execution", "DELEGATECALL Vouchers"),
    ("e2e-", "Phase 7: Token Portals", "E2E Lifecycle"),
    ("execute-voucher-", "Phase 7: Token Portals", "Vouchers"), ("mint-nft-", "Phase 7: Token Portals", "Mint"),
    ("overdraft-", "Phase 7: Token Portals", "Overdraft"),
    ("prove-validate-", "Phase 7: Token Portals", "Notices"),
    ("validate-notice-", "Phase 7: Token Portals", "Notices"),
    ("voucher-execution-", "Phase 7: Token Portals", "Vouchers"),
    ("voucher-", "Phase 5: VM Outputs", "Vouchers"),
    ("jsonrpc-", "Phase 8: Persistence & Recovery", "Edge Cases"),
    ("chaos-", "Phase 9: Chaos & Fault Tolerance", "Chaos"),
    ("cloud-recovery-", "Phase 9: Chaos & Fault Tolerance", "Recovery"),
    ("dirty-restart-", "Phase 9: Chaos & Fault Tolerance", "Dirty Restarts"),
    ("feature-", "Phase 9: Chaos & Fault Tolerance", "Feature Flags"),
    ("snapshot-", "Phase 9: Chaos & Fault Tolerance", "Snapshots"),
    ("ws-", "Phase 9: Chaos & Fault Tolerance", "Recovery"),
    ("l1-reorg-", "Phase 9: Chaos & Fault Tolerance", "Reorgs"),
    ("consensus-", "Phase 10: Multi-App & Consensus", "Consensus"),
    ("multi-app-", "Phase 10: Multi-App & Consensus", "Multi-App"),
    ("determinism-", "Phase 11: Security & Limits", "Determinism"),
    ("security-", "Phase 11: Security & Limits", "Security"),
    ("internal-cli-app-", "Phase 12: Internal CLI", "Application Mgmt"),
    ("internal-cli-db-", "Phase 12: Internal CLI", "Database"),
    ("internal-cli-deploy-", "Phase 12: Internal CLI", "Deployment"),
    ("internal-cli-read-", "Phase 12: Internal CLI", "Read"),
    ("internal-cli-send-", "Phase 12: Internal CLI", "Inputs"),
    ("internal-cli-", "Phase 12: Internal CLI", "Diagnostics"),
    ("health-advancer-", "Phase 13: Telemetry & Health", "Advancer"),
    ("health-claimer-", "Phase 13: Telemetry & Health", "Claimer"),
    ("health-evm-reader-", "Phase 13: Telemetry & Health", "EVM Reader"),
    ("health-jsonrpc-", "Phase 13: Telemetry & Health", "JSON-RPC API"),
    ("health-validator-", "Phase 13: Telemetry & Health", "Validator"),
    ("metrics-", "Phase 13: Telemetry & Health", "Metrics"),
    ("config-advancer-", "Phase 14: Configuration", "Advancer"),
    ("config-auth-", "Phase 14: Configuration", "Auth"), ("config-epoch-", "Phase 14: Configuration", "Epoch"),
    ("config-log-", "Phase 14: Configuration", "Logging"),
    ("config-ws-", "Phase 14: Configuration", "EVM Reader"), ("config-", "Phase 14: Configuration", "Startup"),
    ("inspect-", "Phase 15: Inspect Service", "Basic"), ("perf-", "Phase 17: Performance & Load", "Latency"),
    ("performance-", "Phase 17: Performance & Load", "Throughput")]

/-- `tag.lower()`, up to letters beyond ASCII: none of them has its lower case among those of a phase. -/
def lower (s : Str) : Str := s.map fun c => if 0x41 ≤ c.val ∧ c.val ≤ 0x5a then c + 0x20 else c

/-- The phase that the first tag with one names. -/
def phaseOfTags : List Yaml → Except Err (Option String)
  | [] => .ok none
  | tag :: tags => do
    let s ← tag.asText "lower"
    match phaseTagNames.find? fun e => Value.key e.1 == lower s with
    | some (_, phase) => pure (some phase)
    | none => phaseOfTags tags

/-- The phase and the category of the first beginning that the slug has. -/
def slugEntry (slug : Yaml) : Except Err (Option (String × String)) := do
  let s ← slug.asText "startswith"
  return (slugCategory.find? fun e => (Value.key e.1).isPrefixOf s).map Prod.snd

section Seeding
variable (sv : Services) (csvLookup : Str → Option (Str × Str))

/-- The entry of the first identifier that has one. -/
def csvEntry : List Yaml → Except Err (Option (Str × Str))
  | [] => .ok none
  | .str s :: cids =>
    match csvLookup s with
    | some entry => .ok (some entry)
    | none => csvEntry cids
  | cid :: cids =>
    if cid.hashable then csvEntry cids else .error (.exception ("unhashable type: '" ++ cid.typeName ++ "'"))

/-- `_resolve_category`: the phase and the category. -/
def resolveCategory (front : Members) : Except Err (Yaml × Yaml) := do
  let csvIds := ((front.getD "csv_ids" .null).orElse (.seq [])).listed
  match ← csvEntry csvLookup (← csvIds.elements) with
  | some (phase, cat) => return (.str phase, .str cat)
  | none =>
    if (front.getD "phase" .null).truthy && (front.getD "category" .null).truthy then
      return (front.getD "phase" .null, front.getD "category" .null)
    else
      let tags := (front.getD "tags" .null).orElse (.seq [])
      match ← phaseOfTags (← tags.elements) with
      | some phase =>
        match ← slugEntry (front.getD "id" (.str [])) with
        | some (_, cat) => return (.text phase, .text cat)
        | none => return (.text phase, .null)
      | none =>
        match ← slugEntry (front.getD "id" (.str [])) with
        | some (phase, cat) => return (.text phase, .text cat)
        | none => return (.null, .null)

/-- `parse_md`: the front matter, with the body in it. -/
def parseMd (raw : List Char) : Except Err Members :=
  match frontmatterRe.enclosed raw with
  | none => .error (.exception "no YAML frontmatter found")
  | some (yamlText, body) =>
    match sv.load yamlText with
    | .error e => .error (.exception e.text)
    | .ok (.map m) => .ok (Members.setItem m "body" (.str (stripped body)))
    | .ok (.seq _) => .error (.exception "list indices must be integers or slices, not str")
    | .ok v => .error (.exception ("'" ++ v.typeName ++ "' object does not support item assignment"))

/-- The insertion for the front matter with its body. -/
def storeSeed (raw : List Char) (front : Members) : Except Err Row := do
  let slug ← (Yaml.map front).item "id"
  let name ← (Yaml.map front).item "name"
  let version ← sv.int (front.getD "version" (.int 1))
  let timeout ← sv.int (front.getD "timeout_seconds" (.int 120))
  let minNodeMajorVersion ← sv.int (front.getD "min_node_major_version" (.int 1))
  let (phase, category) ← resolveCategory csvLookup front
  insert sv {
    slug := slug
    name := name
    version := version
    tags := front.getD "tags" (.seq [])
    component := front.getD "component" .null
    priority := front.getD "priority" (.text "medium")
    timeoutSeconds := timeout
    releaseIntroduced := front.getD "release_introduced" .null
    definitionRaw := raw
    definitionParsed := .map (front.without "body")
    minNodeMajorVersion := some minNodeMajorVersion
    category := category
    phase := phase }

/-- What the script does with one of its documents. -/
def seedDefinition (raw : List Char) : Except Err Row := do
  storeSeed sv csvLookup raw (← parseMd sv raw)

end Seeding

variable {sv : Services} {csvLookup : Str → Option (Str × Str)} {raw : List Char} {m : Members} {row : Row}

/-- The row is what the script stores for the members. -/
structure Seeds (sv : Services) (csvLookup : Str → Option (Str × Str)) (raw : List Char) (m : Members) (row : Row) :
    Prop where
  slug : m.get? "id" = some (.str row.slug) ∧ storable row.slug = true
  name : m.get? "name" = some (.str row.name) ∧ storable row.name = true
  version : sv.int (m.getD "version" (.int 1)) = .ok row.version ∧ Int4 row.version
  tags : sv.array (m.getD "tags" (.seq [])) = .ok row.tags
  component : m.getD "component" .null = cell row.component ∧ ∀ s ∈ row.component, storable s = true
  priority : m.getD "priority" (.text "medium") = .str row.priority ∧ row.priority ∈ testPriority
  timeoutSeconds : sv.int (m.getD "timeout_seconds" (.int 120)) = .ok row.timeoutSeconds ∧ Int4 row.timeoutSeconds
  releaseIntroduced : m.getD "release_introduced" .null = cell row.releaseIntroduced ∧
    ∀ s ∈ row.releaseIntroduced, storable s = true
  definitionRaw : raw = row.definitionRaw ∧ StorableText row.definitionRaw
  definitionParsed : sv.jsonb (.map (m.without "body")) = .ok row.definitionParsed
  minNodeMajorVersion : sv.int (m.getD "min_node_major_version" (.int 1)) = .ok row.minNodeMajorVersion ∧
    Int4 row.minNodeMajorVersion
  categories : resolveCategory csvLookup m = .ok (cell row.phase, cell row.category) ∧
    (∀ s ∈ row.category, storable s = true) ∧ ∀ s ∈ row.phase, storable s = true

theorem item_map_ok {name : String} {v : Yaml} : (Yaml.map m).item name = .ok v ↔ m.get? name = some v := by
  unfold Yaml.item
  simp only
  cases m.get? name with
  | none => exact iff_of_false (by nofun) (by nofun)
  | some x => rw [Except.ok.injEq, Option.some_inj]

theorem storeSeed_ok : storeSeed sv csvLookup raw m = .ok row ↔ Seeds sv csvLookup raw m row := by
  simp only [storeSeed, except_bind_ok_iff, item_map_ok, insert_ok]
  constructor
  · rintro ⟨slug, hslug, name, hname, version, hversion, timeout, htimeout, minNode, hminNode, ⟨phase, category⟩,
      hcategories, h⟩
    obtain ⟨rfl, hslug'⟩ := h.slug
    obtain ⟨rfl, hname'⟩ := h.name
    obtain ⟨rfl, hversion'⟩ := h.version
    obtain ⟨rfl, htimeout'⟩ := h.timeoutSeconds
    obtain ⟨rfl, hminNode'⟩ := h.minNodeMajorVersion
    obtain ⟨rfl, hcategory⟩ := h.category
    obtain ⟨rfl, hphase⟩ := h.phase
    exact ⟨⟨hslug, hslug'⟩, ⟨hname, hname'⟩, ⟨hversion, hversion'⟩, h.tags, h.component, h.priority,
      ⟨htimeout, htimeout'⟩, h.releaseIntroduced, h.definitionRaw, h.definitionParsed, ⟨hminNode, hminNode'⟩,
      ⟨hcategories, hcategory, hphase⟩⟩
  · intro h
    refine ⟨_, h.slug.1, _, h.name.1, _, h.version.1, _, h.timeoutSeconds.1, _, h.minNodeMajorVersion.1, _,
      h.categories.1, ?_⟩
    exact ⟨⟨rfl, h.slug.2⟩, ⟨rfl, h.name.2⟩, ⟨rfl, h.version.2⟩, h.tags, h.component, h.priority,
      ⟨rfl, h.timeoutSeconds.2⟩, h.releaseIntroduced, h.definitionRaw, h.definitionParsed,
      ⟨rfl, h.minNodeMajorVersion.2⟩, ⟨rfl, h.categories.2.1⟩, ⟨rfl, h.categories.2.2⟩⟩

/-- The body that is added to the front matter is not read again. -/
theorem resolveCategory_body (v : Yaml) : resolveCategory csvLookup (m.setItem "body" v) = resolveCategory csvLookup m := by
  have hgetD : ∀ k d, k ≠ "body" → (m.setItem "body" v).getD k d = m.getD k d := fun k d hk => Members.getD_setItem_ne hk d
  unfold resolveCategory
  simp only [hgetD _ _ (show "csv_ids" ≠ "body" by decide), hgetD _ _ (show "phase" ≠ "body" by decide),
    hgetD _ _ (show "category" ≠ "body" by decide), hgetD _ _ (show "tags" ≠ "body" by decide),
    hgetD _ _ (show "id" ≠ "body" by decide)]

theorem storeSeed_body (v : Yaml) : storeSeed sv csvLookup raw (m.setItem "body" v) = storeSeed sv csvLookup raw m := by
  have hitem : ∀ k, k ≠ "body" → (Yaml.map (m.setItem "body" v)).item k = (Yaml.map m).item k := by
    intro k hk
    unfold Yaml.item
    simp only [Members.get?_setItem_ne hk]
  have hgetD : ∀ k d, k ≠ "body" → (m.setItem "body" v).getD k d = m.getD k d := fun k d hk => Members.getD_setItem_ne hk d
  unfold storeSeed
  rw [hitem "id" (by decide), hitem "name" (by decide), hgetD "version" _ (by decide), hgetD "timeout_seconds" _ (by decide),
    hgetD "min_node_major_version" _ (by decide), resolveCategory_body, hgetD "tags" _ (by decide),
    hgetD "component" _ (by decide), hgetD "priority" _ (by decide), hgetD "release_introduced" _ (by decide),
    Members.without_setItem]

theorem parseMd_ok : parseMd sv raw = .ok m ↔ ∃ y body front, frontmatterRe.enclosed raw = some (y, body) ∧
    sv.load y = .ok (.map front) ∧ m = Members.setItem front "body" (.str (stripped body)) := by
  constructor
  · intro h
    unfold parseMd at h
    split at h
    next => cases h
    next y body hy =>
      split at h
      next => cases h
      next front hm =>
        cases h
        exact ⟨y, body, front, hy, hm, rfl⟩
      next => cases h
      next => cases h
  · rintro ⟨y, body, front, hy, hm, rfl⟩
    unfold parseMd
    simp only [hy, hm]

theorem seedDefinition_ok : seedDefinition sv csvLookup raw = .ok row ↔
    ∃ m, Finds sv.load frontmatterRe raw m ∧ Seeds sv csvLookup raw m row := by
  rw [seedDefinition, except_bind_ok_iff]
  constructor
  · rintro ⟨m, hm, h⟩
    obtain ⟨y, body, front, hy, hfront, rfl⟩ := parseMd_ok.mp hm
    rw [storeSeed_body] at h
    exact ⟨front, ⟨y, body, hy, hfront⟩, storeSeed_ok.mp h⟩
  · rintro ⟨front, ⟨y, body, hy, hfront⟩, h⟩
    refine ⟨_, parseMd_ok.mpr ⟨y, body, front, hy, hfront, rfl⟩, ?_⟩
    rw [storeSeed_body]
    exact storeSeed_ok.mpr h

end ReleaseValidation.Orchestrator.SeedDefinitions
