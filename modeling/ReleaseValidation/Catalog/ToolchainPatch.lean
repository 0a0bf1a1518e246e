import ReleaseValidation.Catalog.Effects

/-! # What a toolchain update changes

`update_toolchain` fills the tags that it is not given from the toolchain the release had,
and writes all four of them to the rows that the release points to afterwards. A release
that is given another CLI brings the SDK, the devnet and the contracts of its old CLI along.
-/
namespace ReleaseValidation.Catalog
open Runs References Schema

/-- The tags that `update_toolchain` settles on. -/
structure Tags where
  cli : Option String
  sdk : Option String
  devnet : Option String
  contracts : Option String
  deriving DecidableEq, Repr

def settle (db : Db) (tag : String) (payload : ToolchainUpdate) : Option Tags :=
  match db .release tag, lookup db tag with
  | some rc, some row => some
    { cli := overridden payload.cliVersion true rc.cliTag
      sdk := overridden payload.sdkVersion true row.sdkTag
      devnet := overridden payload.devnetVersion false row.devnetTag
      contracts := overridden payload.contractsVersion true row.contractsTag }
  | _, _ => none

def Tags.statements (tag : String) (t : Tags) : List Statement :=
  toolchainStatements tag t.cli t.sdk t.devnet t.contracts

/-- The CLI that the release points to. -/
def cliOf (db : Db) (tag : String) : Option String := (db .release tag).bind ReleaseRow.cliTag

/-- The devnet of that CLI. -/
def devnetOf (db : Db) (tag : String) : Option String := ((cliOf db tag).bind (db .cli)).bind CliRow.devnetTag

/-- Of the links of the rows of `db` only those change that the payload gives a version for. -/
structure OnlyAsked (tag : String) (payload : ToolchainUpdate) (db db' : Db) : Prop where
  releases : ∀ k r, db .release k = some r → ∃ r', db' .release k = some r' ∧
    (r'.cliTag ≠ r.cliTag → k = tag ∧ payload.cliVersion ≠ none)
  clis : ∀ k c, db .cli k = some c → ∃ c', db' .cli k = some c' ∧
    (c'.sdkTag ≠ c.sdkTag → cliOf db' tag = some k ∧ payload.sdkVersion ≠ none) ∧
    (c'.devnetTag ≠ c.devnetTag → cliOf db' tag = some k ∧ payload.devnetVersion ≠ none)
  devnets : ∀ k d, db .devnet k = some d → ∃ d', db' .devnet k = some d' ∧
    (d'.contractsTag ≠ d.contractsTag → devnetOf db' tag = some k ∧ payload.contractsVersion ≠ none)

/-- A statement refers to an empty tag that has no row, and that its own row did not refer to. -/
def Tags.Refused (db : Db) (t : Tags) : Prop :=
  (∃ k, present t.devnet = some k ∧ t.contracts = some "" ∧ db .contracts "" = none ∧
    (db .devnet k).bind DevnetRow.contractsTag ≠ some "") ∨
  ∃ k, present t.cli = some k ∧
    (t.sdk = some "" ∧ db .sdk "" = none ∧ (db .cli k).bind CliRow.sdkTag ≠ some "" ∨
      t.devnet = some "" ∧ db .devnet "" = none ∧ (db .cli k).bind CliRow.devnetTag ≠ some "")

/-- The rows that are there under the tags have the links that are not asked for already. -/
structure Tags.Fits (db : Db) (payload : ToolchainUpdate) (t : Tags) : Prop where
  sdk : payload.sdkVersion = none → ∀ k c, present t.cli = some k → db .cli k = some c →
    t.sdk = none ∨ t.sdk = c.sdkTag
  devnet : payload.devnetVersion = none → ∀ k c, present t.cli = some k → db .cli k = some c →
    t.devnet = none ∨ t.devnet = c.devnetTag
  /-- Contracts that are asked for are those of a devnet that the release comes to point to. -/
  contracts : ∀ k d, present t.devnet = some k → db .devnet k = some d →
    t.contracts = none ∨ t.contracts = d.contractsTag ∨
      payload.contractsVersion ≠ none ∧ ∃ cli, t.cli = some cli ∧
        (cli ≠ "" ∨ (db .cli cli).bind CliRow.devnetTag = some k)

/-- What a CLI refers to, by the columns of its row. -/
theorem mem_refs_cli {old : Option CliRow} {x : String} :
    ((Table.sdk, x) ∈ schema.refs? .cli old ↔ old.bind CliRow.sdkTag = some x) ∧
      ((Table.devnet, x) ∈ schema.refs? .cli old ↔ old.bind CliRow.devnetTag = some x) := by
  cases old with
  | none => simp [refs?]
  | some c => simp [refs?, refs, mem_ref]

theorem mem_refs_devnet {old : Option DevnetRow} {x : String} :
    (Table.contracts, x) ∈ schema.refs? .devnet old ↔ old.bind DevnetRow.contractsTag = some x := by
  cases old with
  | none => simp [refs?]
  | some d => simp [refs?, refs, mem_ref]

theorem updateToolchain_eq (db : Db) (tag : String) (payload : ToolchainUpdate) :
    updateToolchain db tag payload = ((settle db tag payload).map (Tags.statements tag)).getD [] := by
  unfold updateToolchain settle
  cases db .release tag with
  | none => rfl
  | some rc => cases lookup db tag <;> rfl

namespace Tags
variable {db db' : Db} {tag : String} {t : Tags}

/-! ### The statements by what they write -/

def leaves (t : Tags) : List Statement :=
  (present t.sdk).toList.map insertSdk ++ (present t.contracts).toList.map insertContracts

def devnets (t : Tags) : List Statement := (present t.devnet).toList.map fun k => upsertDevnet k t.contracts

def clis (t : Tags) : List Statement := (present t.cli).toList.map fun k => upsertCli k t.sdk t.devnet

def cliUpdates (t : Tags) : List Statement := (present t.cli).toList.map fun k => updateCli k t.sdk t.devnet

def devnetUpdates (t : Tags) : List Statement :=
  (present t.devnet).toList.flatMap fun k => (present t.contracts).toList.map (setDevnetContracts k)

theorem statements_eq : t.statements tag =
    (t.leaves ++ (t.devnets ++ t.clis)) ++ setReleaseCli tag t.cli :: (t.cliUpdates ++ t.devnetUpdates) := by
  simp only [statements, toolchainStatements, chain, leaves, devnets, clis, cliUpdates, devnetUpdates,
    List.append_assoc]

theorem mem_optional {o : Option String} {f : String → Statement} {w : Statement} :
    w ∈ o.toList.map f ↔ ∃ k, o = some k ∧ w = f k := by
  simp only [List.mem_map, Option.mem_toList, eq_comm]

theorem mem_leaves {w : Statement} : w ∈ t.leaves ↔
    (∃ k, present t.sdk = some k ∧ w = insertSdk k) ∨ ∃ k, present t.contracts = some k ∧ w = insertContracts k := by
  rw [leaves, List.mem_append, mem_optional, mem_optional]

theorem mem_devnetUpdates {w : Statement} : w ∈ t.devnetUpdates ↔
    ∃ k c, present t.devnet = some k ∧ present t.contracts = some c ∧ w = setDevnetContracts k c := by
  simp only [devnetUpdates, List.mem_flatMap, mem_optional, Option.mem_toList]
  constructor
  · rintro ⟨k, hk, c, hc, rfl⟩
    exact ⟨k, c, hk, hc, rfl⟩
  · rintro ⟨k, c, hk, hc, rfl⟩
    exact ⟨k, hk, c, hc, rfl⟩

theorem ne_of_table {w : Statement} {a b : Table} {k : String} (hw : w.table = b) (hab : a ≠ b) :
    (a, k) ≠ (w.table, w.key) := fun h => hab ((congrArg Prod.fst h).trans hw)

theorem table_leaves {w : Statement} (hw : w ∈ t.leaves) : w.table = .sdk ∨ w.table = .contracts := by
  rcases mem_leaves.mp hw with ⟨k, -, rfl⟩ | ⟨k, -, rfl⟩
  · exact Or.inl rfl
  · exact Or.inr rfl

theorem table_devnets {w : Statement} (hw : w ∈ t.devnets) : w.table = .devnet := by
  obtain ⟨k, -, rfl⟩ := mem_optional.mp hw
  rfl

theorem table_clis {w : Statement} (hw : w ∈ t.clis) : w.table = .cli := by
  obtain ⟨k, -, rfl⟩ := mem_optional.mp hw
  rfl

theorem table_cliUpdates {w : Statement} (hw : w ∈ t.cliUpdates) : w.table = .cli := by
  obtain ⟨k, -, rfl⟩ := mem_optional.mp hw
  rfl

theorem table_devnetUpdates {w : Statement} (hw : w ∈ t.devnetUpdates) : w.table = .devnet := by
  obtain ⟨k, c, -, -, rfl⟩ := mem_devnetUpdates.mp hw
  rfl

/-! ### What they leave in each table -/

theorem statements_release (h : exec Write.run db (t.statements tag) = some db') (k : String) :
    db' .release k = if k = tag then (db .release k).map (fun r => { r with cliTag := t.cli }) else db .release k := by
  rw [statements_eq] at h
  have hpre : ∀ w ∈ t.leaves ++ (t.devnets ++ t.clis), (Table.release, k) ≠ (w.table, w.key) := by
    intro w hw
    rcases List.mem_append.mp hw with hw | hw
    · rcases table_leaves hw with hw | hw
      · exact ne_of_table hw (by decide)
      · exact ne_of_table hw (by decide)
    rcases List.mem_append.mp hw with hw | hw
    · exact ne_of_table (table_devnets hw) (by decide)
    · exact ne_of_table (table_clis hw) (by decide)
  have hpost : ∀ w ∈ t.cliUpdates ++ t.devnetUpdates, (Table.release, k) ≠ (w.table, w.key) := by
    intro w hw
    rcases List.mem_append.mp hw with hw | hw
    · exact ne_of_table (table_cliUpdates hw) (by decide)
    · exact ne_of_table (table_devnetUpdates hw) (by decide)
  split
  next hk =>
    subst hk
    have hrow : db' .release k = ((setReleaseCli k t.cli).row (db .release k)).or (db .release k) :=
      exec_row h hpre hpost
    rw [hrow]
    cases db .release k <;> rfl
  next hk =>
    refine exec_frame h fun w hw => ?_
    rcases List.mem_append.mp hw with hw | hw
    · exact hpre w hw
    rcases List.mem_cons.mp hw with rfl | hw
    · exact fun he => hk (congrArg Prod.snd he)
    · exact hpost w hw

theorem statements_cli (h : exec Write.run db (t.statements tag) = some db') (k : String) :
    db' .cli k = if present t.cli = some k then some (mergedCli t.sdk t.devnet (db .cli k)) else db .cli k := by
  rw [statements_eq] at h
  have hpre : ∀ w ∈ t.leaves ++ t.devnets, (Table.cli, k) ≠ (w.table, w.key) := by
    intro w hw
    rcases List.mem_append.mp hw with hw | hw
    · rcases table_leaves hw with hw | hw
      · exact ne_of_table hw (by decide)
      · exact ne_of_table hw (by decide)
    · exact ne_of_table (table_devnets hw) (by decide)
  have hrelease : ∀ w ∈ [setReleaseCli tag t.cli], (Table.cli, k) ≠ (w.table, w.key) := by
    intro w hw
    rw [List.mem_singleton.mp hw]
    exact ne_of_table (b := .release) rfl (by decide)
  have hpost : ∀ w ∈ t.devnetUpdates, (Table.cli, k) ≠ (w.table, w.key) :=
    fun w hw => ne_of_table (table_devnetUpdates hw) (by decide)
  split
  next hk =>
    -- the row is upserted, and the update after it writes the same links again
    simp only [clis, cliUpdates, hk, Option.toList_some, List.map_cons, List.map_nil] at h
    have hsplit : (t.leaves ++ (t.devnets ++ [upsertCli k t.sdk t.devnet])) ++
        setReleaseCli tag t.cli :: ([updateCli k t.sdk t.devnet] ++ t.devnetUpdates) =
        ((t.leaves ++ t.devnets) ++ upsertCli k t.sdk t.devnet :: [setReleaseCli tag t.cli]) ++
          ([] ++ updateCli k t.sdk t.devnet :: t.devnetUpdates) := by
      simp only [List.append_assoc, List.cons_append, List.nil_append]
    rw [hsplit] at h
    obtain ⟨db₁, h₁, h₂⟩ := exec_append_iff.mp h
    have hrow₁ : db₁ .cli k = ((upsertCli k t.sdk t.devnet).row (db .cli k)).or (db .cli k) :=
      exec_row h₁ hpre hrelease
    have hrow₂ : db' .cli k = ((updateCli k t.sdk t.devnet).row (db₁ .cli k)).or (db₁ .cli k) :=
      exec_row h₂ (fun w hw => absurd hw List.not_mem_nil) hpost
    rw [hrow₂, hrow₁, upsertCli_row]
    cases hs : t.sdk <;> cases hd : t.devnet <;> simp [updateCli, mergedCli, coalesce]
  next hk =>
    refine exec_frame h fun w hw => ?_
    have hother : ∀ f : String → Statement, (∀ c, (f c).table = .cli ∧ (f c).key = c) →
        w ∈ (present t.cli).toList.map f → (Table.cli, k) ≠ (w.table, w.key) := by
      intro f hf hw he
      obtain ⟨c, hc, rfl⟩ := mem_optional.mp hw
      have hkey : k = (f c).key := congrArg Prod.snd he
      rw [(hf c).2] at hkey
      exact hk (hkey ▸ hc)
    rcases List.mem_append.mp hw with hw | hw
    · rw [← List.append_assoc] at hw
      rcases List.mem_append.mp hw with hw | hw
      · exact hpre w hw
      · exact hother _ (fun c => ⟨rfl, rfl⟩) hw
    rcases List.mem_cons.mp hw with rfl | hw
    · exact ne_of_table (b := .release) rfl (by decide)
    rcases List.mem_append.mp hw with hw | hw
    · exact hother _ (fun c => ⟨rfl, rfl⟩) hw
    · exact hpost w hw

/-- `contracts_tag` after an upsert of the devnet. -/
def mergedDevnet (contractsTag : Option String) (old : Option DevnetRow) : DevnetRow :=
  ⟨coalesce contractsTag (old.bind DevnetRow.contractsTag)⟩

theorem upsertDevnet_row {k : String} {contractsTag : Option String} (old : Option DevnetRow) :
    ((upsertDevnet k contractsTag).row old).or old = some (mergedDevnet contractsTag old) := by
  cases old with
  | none => simp [upsertDevnet, mergedDevnet, coalesce]
  | some d => rfl

theorem statements_devnet (h : exec Write.run db (t.statements tag) = some db') (k : String) :
    db' .devnet k = if present t.devnet = some k then some (mergedDevnet t.contracts (db .devnet k))
      else db .devnet k := by
  rw [statements_eq] at h
  have hleaves : ∀ w ∈ t.leaves, (Table.devnet, k) ≠ (w.table, w.key) := by
    intro w hw
    rcases table_leaves hw with hw | hw
    · exact ne_of_table hw (by decide)
    · exact ne_of_table hw (by decide)
  have hmid : ∀ w ∈ t.clis ++ setReleaseCli tag t.cli :: t.cliUpdates, (Table.devnet, k) ≠ (w.table, w.key) := by
    intro w hw
    rcases List.mem_append.mp hw with hw | hw
    · exact ne_of_table (table_clis hw) (by decide)
    rcases List.mem_cons.mp hw with rfl | hw
    · exact ne_of_table (b := .release) rfl (by decide)
    · exact ne_of_table (table_cliUpdates hw) (by decide)
  have hsplit : (t.leaves ++ (t.devnets ++ t.clis)) ++ setReleaseCli tag t.cli :: (t.cliUpdates ++ t.devnetUpdates) =
      (t.leaves ++ (t.devnets ++ (t.clis ++ setReleaseCli tag t.cli :: t.cliUpdates))) ++ t.devnetUpdates := by
    simp only [List.append_assoc, List.cons_append]
  rw [hsplit] at h
  obtain ⟨db₁, h₁, h₂⟩ := exec_append_iff.mp h
  split
  next hk =>
    simp only [devnets, hk, Option.toList_some, List.map_cons, List.map_nil, List.singleton_append] at h₁
    have hrow₁ : db₁ .devnet k = ((upsertDevnet k t.contracts).row (db .devnet k)).or (db .devnet k) :=
      exec_row h₁ hleaves hmid
    rw [upsertDevnet_row] at hrow₁
    cases hc : present t.contracts with
    | none =>
      have hnil : t.devnetUpdates = [] := by simp [devnetUpdates, hc]
      rw [hnil] at h₂
      cases h₂
      exact hrow₁
    | some c =>
      -- the update after it writes the same link again
      have hcontracts : t.contracts = some c := (Option.filter_eq_some_iff.mp hc).1
      simp only [devnetUpdates, hk, hc, Option.toList_some, List.flatMap_cons, List.flatMap_nil, List.map_cons,
        List.map_nil, List.append_nil] at h₂
      have h₃ : exec Write.run db₁ ([] ++ setDevnetContracts k c :: []) = some db' := h₂
      have hrow₂ : db' .devnet k = ((setDevnetContracts k c).row (db₁ .devnet k)).or (db₁ .devnet k) :=
        exec_row h₃ (fun w hw => absurd hw List.not_mem_nil) fun w hw => absurd hw List.not_mem_nil
      rw [hrow₂, hrow₁, hcontracts]
      rfl
  next hk =>
    have hother : ∀ w : Statement, present t.devnet = some w.key → (Table.devnet, k) ≠ (w.table, w.key) := by
      intro w hkey he
      exact hk (hkey.trans (congrArg some (congrArg Prod.snd he).symm))
    rw [exec_frame h₂ fun w hw => ?_]
    · refine exec_frame h₁ fun w hw => ?_
      rcases List.mem_append.mp hw with hw | hw
      · exact hleaves w hw
      rcases List.mem_append.mp hw with hw | hw
      · obtain ⟨d, hd, rfl⟩ := mem_optional.mp hw
        exact hother _ hd
      · exact hmid w hw
    · obtain ⟨d, c, hd, -, rfl⟩ := mem_devnetUpdates.mp hw
      exact hother _ hd

/-! ### When a statement is refused -/

theorem present_eq_some {o : Option String} {k : String} : present o = some k ↔ o = some k ∧ k ≠ "" := by
  simp [present, Option.filter_eq_some_iff]

theorem leaves_complete : ∃ u, exec Write.run db t.leaves = some u := by
  cases h : exec Write.run db t.leaves with
  | some u => exact ⟨u, rfl⟩
  | none =>
    obtain ⟨pre, w, post, u, hw, -, hrun⟩ := exec_eq_none h
    have hmem : w ∈ t.leaves := by
      rw [hw]
      exact List.mem_append_right _ List.mem_cons_self
    obtain ⟨r, -, p, hp, -⟩ := w.run_eq_none hrun
    rcases mem_leaves.mp hmem with ⟨k, -, rfl⟩ | ⟨k, -, rfl⟩ <;> cases hp

/-- The leaves bring in the SDK and the contracts, if their tags are not empty. -/
theorem leaves_has {u : Db} (h : exec Write.run db t.leaves = some u) {k : String} (hk : k ≠ "") :
    (t.sdk = some k → Has u (.sdk, k)) ∧ (t.contracts = some k → Has u (.contracts, k)) := by
  refine ⟨fun hs => ?_, fun hc => ?_⟩
  · have hmem : insertSdk k ∈ t.leaves := mem_leaves.mpr (Or.inl ⟨k, present_eq_some.mpr ⟨hs, hk⟩, rfl⟩)
    exact exec_inserts h hmem insertSdk_inserts
  · have hmem : insertContracts k ∈ t.leaves :=
      mem_leaves.mpr (Or.inr ⟨k, present_eq_some.mpr ⟨hc, hk⟩, rfl⟩)
    exact exec_inserts h hmem insertContracts_inserts

/-- A statement of an earlier kind does not touch an empty key. -/
theorem leaves_blank {u : Db} (h : exec Write.run db t.leaves = some u) (tb : Table) : u tb "" = db tb "" := by
  refine exec_frame h fun w hw he => ?_
  have hkey : "" = w.key := congrArg Prod.snd he
  rcases mem_leaves.mp hw with ⟨k, hk, rfl⟩ | ⟨k, hk, rfl⟩
  · exact (present_eq_some.mp hk).2 hkey.symm
  · exact (present_eq_some.mp hk).2 hkey.symm

theorem leaves_row {u : Db} (h : exec Write.run db t.leaves = some u) {tb : Table} (hsdk : tb ≠ .sdk)
    (hcontracts : tb ≠ .contracts) (k : String) : u tb k = db tb k := by
  refine exec_frame h fun w hw => ?_
  rcases table_leaves hw with hw | hw
  · exact ne_of_table hw hsdk
  · exact ne_of_table hw hcontracts

theorem devnets_row {u v : Db} (h : exec Write.run u t.devnets = some v) {tb : Table} (htb : tb ≠ .devnet)
    (k : String) : v tb k = u tb k :=
  exec_frame h fun _ hw => ne_of_table (table_devnets hw) htb

/-- A devnet that is upserted misses nothing but contracts with an empty tag. -/
theorem devnets_eq_none {u : Db} (hu : exec Write.run db t.leaves = some u) (h : exec Write.run u t.devnets = none) :
    t.Refused db := by
  cases hk : present t.devnet with
  | none =>
    simp only [devnets, hk, Option.toList_none, List.map_nil] at h
    cases h
  | some k =>
    simp only [devnets, hk, Option.toList_some, List.map_cons, List.map_nil, exec_cons, exec_nil,
      Option.bind_fun_some] at h
    obtain ⟨r, hr, p, hp, hold, hhas⟩ := Write.run_eq_none h
    have hp := (upsertDevnet_uses _ r hr p hp).resolve_right hold
    obtain ⟨tb, c⟩ := p
    obtain ⟨rfl, hc⟩ := mem_ref.mp hp
    have hc : t.contracts = some c := hc
    have hblank : c = "" := by
      by_contra hne
      exact hhas ((leaves_has hu hne).2 hc)
    subst hblank
    refine Or.inl ⟨k, hk, hc, ?_, ?_⟩
    · rw [← leaves_blank hu .contracts]
      exact Option.not_isSome_iff_eq_none.mp hhas
    · intro hset
      apply hold
      have hrow : u .devnet k = db .devnet k := leaves_row hu (by decide) (by decide) k
      rw [← hrow] at hset
      exact mem_refs_devnet.mpr hset

/-- The devnet is there once it has been upserted, if its tag is not empty. -/
theorem devnets_has {u v : Db} (h : exec Write.run u t.devnets = some v) {k : String} (hk : k ≠ "")
    (hd : t.devnet = some k) : Has v (.devnet, k) :=
  exec_inserts h (mem_optional.mpr ⟨k, present_eq_some.mpr ⟨hd, hk⟩, rfl⟩) upsertDevnet_inserts

theorem devnets_blank {u v : Db} (h : exec Write.run u t.devnets = some v) (tb : Table) : v tb "" = u tb "" := by
  refine exec_frame h fun w hw he => ?_
  obtain ⟨k, hk, rfl⟩ := mem_optional.mp hw
  exact (present_eq_some.mp hk).2 (congrArg Prod.snd he).symm

/-- A CLI that is upserted misses nothing but an SDK or a devnet with an empty tag. -/
theorem clis_eq_none {u v : Db} (hu : exec Write.run db t.leaves = some u) (hv : exec Write.run u t.devnets = some v)
    (h : exec Write.run v t.clis = none) : t.Refused db := by
  cases hk : present t.cli with
  | none =>
    simp only [clis, hk, Option.toList_none, List.map_nil] at h
    cases h
  | some k =>
    simp only [clis, hk, Option.toList_some, List.map_cons, List.map_nil, exec_cons, exec_nil,
      Option.bind_fun_some] at h
    obtain ⟨r, hr, p, hp, hold, hhas⟩ := Write.run_eq_none h
    have hp := (upsertCli_uses _ r hr p hp).resolve_right hold
    have hrow : v .cli k = db .cli k :=
      (devnets_row hv (by decide) k).trans (leaves_row hu (by decide) (by decide) k)
    have hblank : ∀ tb, v tb "" = db tb "" := fun tb => (devnets_blank hv tb).trans (leaves_blank hu tb)
    change p ∉ schema.refs? .cli (v .cli k) at hold
    refine Or.inr ⟨k, hk, ?_⟩
    obtain ⟨tb, x⟩ := p
    rcases List.mem_append.mp hp with hp | hp
    · left
      obtain ⟨rfl, hx⟩ := mem_ref.mp hp
      have hx : t.sdk = some x := hx
      have hempty : x = "" := by
        by_contra hne
        exact hhas (exec_has hv ((leaves_has hu hne).1 hx))
      subst hempty
      refine ⟨hx, by rw [← hblank]; exact Option.not_isSome_iff_eq_none.mp hhas, fun hset => hold ?_⟩
      rw [hrow]
      exact mem_refs_cli.1.mpr hset
    · right
      obtain ⟨rfl, hx⟩ := mem_ref.mp hp
      have hx : t.devnet = some x := hx
      have hempty : x = "" := by
        by_contra hne
        exact hhas (devnets_has hv hne hx)
      subst hempty
      refine ⟨hx, by rw [← hblank]; exact Option.not_isSome_iff_eq_none.mp hhas, fun hset => hold ?_⟩
      rw [hrow]
      exact mem_refs_cli.2.mpr hset

theorem setReleaseCli_runs {u v w : Db} (hu : exec Write.run db t.leaves = some u)
    (hv : exec Write.run u t.devnets = some v) (hw : exec Write.run v t.clis = some w)
    (hcli : t.cli = some "" → cliOf db tag = some "") : Write.run w (setReleaseCli tag t.cli) ≠ none := by
  intro h
  obtain ⟨r, hr, ⟨tb, c⟩, hp, hold, hhas⟩ := Write.run_eq_none h
  obtain ⟨rfl, hc⟩ := mem_ref.mp ((setReleaseCli_uses _ r hr _ hp).resolve_right hold)
  have hc : t.cli = some c := hc
  by_cases hne : c = ""
  · subst hne
    apply hold
    have hrow : w .release tag = db .release tag :=
      (exec_frame hw fun x hx => ne_of_table (table_clis hx) (by decide)).trans
        ((devnets_row hv (by decide) tag).trans (leaves_row hu (by decide) (by decide) tag))
    obtain ⟨rc, hrc, hset⟩ := Option.bind_eq_some_iff.mp (hcli hc)
    change (Table.cli, "") ∈ schema.refs? .release (w .release tag)
    rw [hrow, hrc]
    exact mem_ref.mpr ⟨rfl, hset⟩
  · have hmem : upsertCli c t.sdk t.devnet ∈ t.clis := mem_optional.mpr ⟨c, present_eq_some.mpr ⟨hc, hne⟩, rfl⟩
    exact hhas (exec_inserts hw hmem upsertCli_inserts)

/-- The row of the CLI refers to the SDK and the devnet already, once it has been upserted. -/
theorem cliUpdates_complete {v w x : Db} (hw : exec Write.run v t.clis = some w)
    (hx : Write.run w (setReleaseCli tag t.cli) = some x) : exec Write.run x t.cliUpdates ≠ none := by
  intro h
  cases hk : present t.cli with
  | none =>
    simp only [cliUpdates, hk, Option.toList_none, List.map_nil] at h
    cases h
  | some k =>
    simp only [cliUpdates, clis, hk, Option.toList_some, List.map_cons, List.map_nil, exec_cons, exec_nil,
      Option.bind_fun_some] at h hw
    obtain ⟨r, hr, p, hp, hold, -⟩ := Write.run_eq_none h
    have hp := (updateCli_uses _ r hr p hp).resolve_right hold
    have hrow : x .cli k = some (mergedCli t.sdk t.devnet (v .cli k)) := by
      have hframe : x .cli k = w .cli k := Write.run_frame hx (ne_of_table (b := .release) rfl (by decide))
      have hset : w .cli k = ((upsertCli k t.sdk t.devnet).row (v .cli k)).or (v .cli k) := Write.run_row hw
      rw [hframe, hset, upsertCli_row]
    apply hold
    change p ∈ schema.refs? .cli (x .cli k)
    rw [hrow]
    refine List.mem_append.mpr ((List.mem_append.mp hp).imp ?_ ?_)
    · intro hs
      obtain ⟨htb, hs⟩ := mem_ref.mp hs
      exact mem_ref.mpr ⟨htb, by simp [mergedCli, coalesce, hs]⟩
    · intro hd
      obtain ⟨htb, hd⟩ := mem_ref.mp hd
      exact mem_ref.mpr ⟨htb, by simp [mergedCli, coalesce, hd]⟩

theorem devnetUpdates_complete {u y : Db} (hu : exec Write.run db t.leaves = some u)
    (hy : ∀ p, Has u p → Has y p) : exec Write.run y t.devnetUpdates ≠ none := by
  intro h
  obtain ⟨pre, w, post, z, hw, hz, hrun⟩ := exec_eq_none h
  have hmem : w ∈ t.devnetUpdates := by
    rw [hw]
    exact List.mem_append_right _ List.mem_cons_self
  obtain ⟨k, c, -, hc, rfl⟩ := mem_devnetUpdates.mp hmem
  obtain ⟨r, hr, p, hp, hold, hhas⟩ := Write.run_eq_none hrun
  have hp := (setDevnetContracts_uses _ r hr p hp).resolve_right hold
  rw [List.mem_singleton] at hp
  subst hp
  obtain ⟨hset, hne⟩ := present_eq_some.mp hc
  exact hhas (exec_has hz (hy _ ((leaves_has hu hne).2 hset)))

theorem refused_of_eq_none (hcli : t.cli = some "" → cliOf db tag = some "")
    (h : exec Write.run db (t.statements tag) = none) : t.Refused db := by
  obtain ⟨u, hu⟩ : ∃ u, exec Write.run db t.leaves = some u := leaves_complete
  rw [statements_eq, List.append_assoc, exec_append, hu, Option.bind_some] at h
  rcases exec_append_eq_none h with h | ⟨v', hv', h⟩
  · rcases exec_append_eq_none h with h | ⟨v, hv, h⟩
    · exact devnets_eq_none hu h
    · exact clis_eq_none hu hv h
  · exfalso
    obtain ⟨v, hv, hw⟩ := exec_append_iff.mp hv'
    cases hx : Write.run v' (setReleaseCli tag t.cli) with
    | none => exact setReleaseCli_runs hu hv hw hcli hx
    | some x =>
      rw [exec_cons, hx, Option.bind_some] at h
      rcases exec_append_eq_none h with h | ⟨y, hy, h⟩
      · exact cliUpdates_complete hw hx h
      · refine devnetUpdates_complete hu (fun p hp => ?_) h
        exact exec_has hy (Write.run_has hx (exec_has hw (exec_has hv hp)))

theorem eq_none_of_refused (hr : t.Refused db) : exec Write.run db (t.statements tag) = none := by
  cases h : exec Write.run db (t.statements tag) with
  | none => rfl
  | some db' =>
    exfalso
    rw [statements_eq] at h
    obtain ⟨v', h, -⟩ := exec_append_iff.mp h
    obtain ⟨u, hu, h⟩ := exec_append_iff.mp h
    obtain ⟨v, hv, hw⟩ := exec_append_iff.mp h
    rcases hr with ⟨k, hk, hc, hno, hset⟩ | ⟨k, hk, hr⟩
    · simp only [devnets, hk, Option.toList_some, List.map_cons, List.map_nil, exec_cons, exec_nil,
        Option.bind_fun_some] at hv
      have hrow : u .devnet k = db .devnet k := leaves_row hu (by decide) (by decide) k
      have hnew : (upsertDevnet k t.contracts).row (u .devnet k) = some ⟨some ""⟩ := by
        rw [hc]
        cases u .devnet k <;> rfl
      rcases Write.run_refs hv hnew (p := (.contracts, "")) (mem_ref.mpr ⟨rfl, rfl⟩) with hold | hhas
      · change (Table.contracts, "") ∈ schema.refs? .devnet (u .devnet k) at hold
        rw [hrow] at hold
        exact hset (mem_refs_devnet.mp hold)
      · have hhas : (u .contracts "").isSome = true := hhas
        rw [leaves_blank hu, hno] at hhas
        cases hhas
    · simp only [clis, hk, Option.toList_some, List.map_cons, List.map_nil, exec_cons, exec_nil,
        Option.bind_fun_some] at hw
      have hrow : v .cli k = db .cli k :=
        (devnets_row hv (by decide) k).trans (leaves_row hu (by decide) (by decide) k)
      have hblank : ∀ tb, v tb "" = db tb "" := fun tb => (devnets_blank hv tb).trans (leaves_blank hu tb)
      have hnew : (upsertCli k t.sdk t.devnet).row (v .cli k) = some (mergedCli t.sdk t.devnet (v .cli k)) := by
        cases v .cli k with
        | none => simp [upsertCli, mergedCli, coalesce]
        | some c => rfl
      -- the row would refer to the empty tag
      have hmiss : ∀ tb, (tb, "") ∈ schema.refs .cli (mergedCli t.sdk t.devnet (v .cli k)) → db tb "" = none →
          (tb, "") ∈ schema.refs? .cli (db .cli k) := by
        intro tb hp hno
        rcases Write.run_refs hw hnew hp with hold | hhas
        · exact hrow ▸ hold
        · have hhas : (v tb "").isSome = true := hhas
          rw [hblank, hno] at hhas
          cases hhas
      rcases hr with ⟨hs, hno, hset⟩ | ⟨hd, hno, hset⟩
      · refine hset (mem_refs_cli.1.mp (hmiss .sdk ?_ hno))
        exact List.mem_append_left _ (mem_ref.mpr ⟨rfl, by simp [mergedCli, coalesce, hs]⟩)
      · refine hset (mem_refs_cli.2.mp (hmiss .devnet ?_ hno))
        exact List.mem_append_right _ (mem_ref.mpr ⟨rfl, by simp [mergedCli, coalesce, hd]⟩)

end Tags

section Update

theorem coalesce_eq_iff {new old : Option String} : coalesce new old = old ↔ new = none ∨ new = old := by
  cases new with
  | none => simp [coalesce]
  | some x => simp [coalesce]

theorem OnlyAsked.refl (tag : String) (payload : ToolchainUpdate) (db : Db) : OnlyAsked tag payload db db :=
  ⟨fun _ r hr => ⟨r, hr, fun hne => absurd rfl hne⟩,
    fun _ c hc => ⟨c, hc, fun hne => absurd rfl hne, fun hne => absurd rfl hne⟩,
    fun _ d hd => ⟨d, hd, fun hne => absurd rfl hne⟩⟩

variable {db : Db} {tag : String} {payload : ToolchainUpdate} {t : Tags}

theorem settle_eq_some (h : settle db tag payload = some t) : ∃ rc row, db .release tag = some rc ∧
    lookup db tag = some row ∧ t = ⟨overridden payload.cliVersion true rc.cliTag,
      overridden payload.sdkVersion true row.sdkTag, overridden payload.devnetVersion false row.devnetTag,
      overridden payload.contractsVersion true row.contractsTag⟩ := by
  unfold settle at h
  cases hrc : db .release tag with
  | none =>
    rw [hrc] at h
    cases h
  | some rc =>
    cases hrow : lookup db tag with
    | none =>
      rw [hrc, hrow] at h
      cases h
    | some row =>
      rw [hrc, hrow] at h
      exact ⟨rc, row, rfl, rfl, (Option.some.inj h).symm⟩

/-- What the call leaves changes only what was asked for exactly when the tags fit the rows that are there. -/
theorem fits_iff {db' : Db} (ht : settle db tag payload = some t)
    (h : exec Write.run db (t.statements tag) = some db') : OnlyAsked tag payload db db' ↔ t.Fits db payload := by
  obtain ⟨rc, row, hrc, -, hcli⟩ := settle_eq_some ht
  have hasked : payload.cliVersion = none → t.cli = rc.cliTag := by
    intro hnone
    rw [hcli, hnone]
    rfl
  have hrelease := Tags.statements_release h
  have hcliRow := Tags.statements_cli h
  have hdevnetRow := Tags.statements_devnet h
  have hcliOf : cliOf db' tag = t.cli := by
    rw [cliOf, hrelease, if_pos rfl, hrc]
    rfl
  constructor
  · intro honly
    refine ⟨?_, ?_, ?_⟩
    · intro hnone k c hk hc
      obtain ⟨c', hc', hsdk, -⟩ := honly.clis k c hc
      rw [hcliRow, if_pos hk, hc] at hc'
      cases hc'
      by_contra hno
      exact (hsdk fun he => hno (coalesce_eq_iff.mp he)).2 hnone
    · intro hnone k c hk hc
      obtain ⟨c', hc', -, hdevnet⟩ := honly.clis k c hc
      rw [hcliRow, if_pos hk, hc] at hc'
      cases hc'
      by_contra hno
      exact (hdevnet fun he => hno (coalesce_eq_iff.mp he)).2 hnone
    · intro k d hk hd
      obtain ⟨d', hd', hcontracts⟩ := honly.devnets k d hd
      rw [hdevnetRow, if_pos hk, hd] at hd'
      cases hd'
      by_cases he : coalesce t.contracts d.contractsTag = d.contractsTag
      · exact (coalesce_eq_iff.mp he).imp_right Or.inl
      · obtain ⟨hof, hgiven⟩ := hcontracts he
        rw [devnetOf, hcliOf] at hof
        obtain ⟨c', hc', hof⟩ := Option.bind_eq_some_iff.mp hof
        obtain ⟨cli, hset, hc'⟩ := Option.bind_eq_some_iff.mp hc'
        refine Or.inr (Or.inr ⟨hgiven, cli, hset, ?_⟩)
        by_cases hne : cli = ""
        · right
          have hskip : present t.cli ≠ some cli := fun hp => (Tags.present_eq_some.mp hp).2 hne
          rw [hcliRow, if_neg hskip] at hc'
          rw [hc']
          exact hof
        · exact Or.inl hne
  · intro hfits
    refine ⟨?_, ?_, ?_⟩
    · intro k r hr
      rw [hrelease]
      split
      next hk =>
        subst hk
        cases hrc.symm.trans hr
        rw [hr]
        exact ⟨_, rfl, fun hne => ⟨rfl, fun hnone => hne (hasked hnone)⟩⟩
      next => exact ⟨r, hr, fun hne => absurd rfl hne⟩
    · intro k c hc
      rw [hcliRow]
      split
      next hk =>
        rw [hc, hcliOf, (Tags.present_eq_some.mp hk).1]
        refine ⟨_, rfl, fun hne => ⟨rfl, fun hnone => hne ?_⟩, fun hne => ⟨rfl, fun hnone => hne ?_⟩⟩
        · exact coalesce_eq_iff.mpr (hfits.sdk hnone k c hk hc)
        · exact coalesce_eq_iff.mpr (hfits.devnet hnone k c hk hc)
      next => exact ⟨c, hc, fun hne => absurd rfl hne, fun hne => absurd rfl hne⟩
    · intro k d hd
      rw [hdevnetRow]
      split
      next hk =>
        rw [hd]
        refine ⟨_, rfl, fun hne => ?_⟩
        rcases hfits.contracts k d hk hd with hnone | hsame | ⟨hgiven, cli, hset, hlink⟩
        · exact absurd (coalesce_eq_iff.mpr (Or.inl hnone)) hne
        · exact absurd (coalesce_eq_iff.mpr (Or.inr hsame)) hne
        · refine ⟨?_, hgiven⟩
          rw [devnetOf, hcliOf, hset, Option.bind_some, hcliRow]
          by_cases hempty : cli = ""
          · have hskip : present t.cli ≠ some cli := fun hp => (Tags.present_eq_some.mp hp).2 hempty
            rw [if_neg hskip]
            exact hlink.resolve_left (not_not_intro hempty)
          · rw [if_pos (Tags.present_eq_some.mpr ⟨hset, hempty⟩)]
            simp [mergedCli, coalesce, (Tags.present_eq_some.mp hk).1]
      next => exact ⟨d, hd, fun hne => absurd rfl hne⟩

/-- An update changes nothing but what it is asked for exactly when it is refused, its release is not there,
or the links that it fills in are those of the rows it writes them to. -/
theorem update_changes_only_asked_iff (ch : Characters) (db : Db) (tag : String) (payload : ToolchainUpdate) :
    (∀ db', step ch db (.updateToolchain tag payload) = some db' → OnlyAsked tag payload db db') ↔
      ∀ t, settle db tag payload = some t → t.Refused db ∨ t.Fits db payload := by
  simp only [step, Act.statements, updateToolchain_eq, Option.some.injEq, forall_eq']
  cases ht : settle db tag payload with
  | none => exact iff_of_true (OnlyAsked.refl tag payload db) fun _ ht => by cases ht
  | some t =>
    simp only [Option.map_some, Option.getD_some, Option.some.injEq, forall_eq', transaction]
    have hblank : t.cli = some "" → cliOf db tag = some "" := by
      intro hcli
      obtain ⟨rc, row, hrc, -, rfl⟩ := settle_eq_some ht
      rw [cliOf, hrc]
      by_contra hne
      exact overridden_withV_ne payload.cliVersion hne hcli
    cases h : exec Write.run db (t.statements tag) with
    | none => exact iff_of_true (OnlyAsked.refl tag payload db) (Or.inl (Tags.refused_of_eq_none hblank h))
    | some db' =>
      rw [Option.getD_some, fits_iff ht h]
      refine ⟨Or.inr, fun hcases => hcases.resolve_left fun hr => ?_⟩
      cases (Tags.eq_none_of_refused hr).symm.trans h

end Update

/-- Only another CLI is asked for, one that is in the catalog and that another release ships with. -/
def otherCli : ToolchainUpdate := ⟨some "2.0.0-alpha.22", none, none, none⟩

theorem other_cli_rewritten :
    ((transaction seeded (updateToolchain seeded "v2.0.0-alpha.11" otherCli)).getD seeded) .cli "v2.0.0-alpha.22" =
        some ⟨some "v0.12.0-alpha.39", some "2.2.0"⟩ ∧
      ¬ ∀ db', step .ascii seeded (.updateToolchain "v2.0.0-alpha.11" otherCli) = some db' →
        OnlyAsked "v2.0.0-alpha.11" otherCli seeded db' := by
  have hrow : ((transaction seeded (updateToolchain seeded "v2.0.0-alpha.11" otherCli)).getD seeded) .cli
      "v2.0.0-alpha.22" = some ⟨some "v0.12.0-alpha.39", some "2.2.0"⟩ := by decide +kernel
  have hold : seeded .cli "v2.0.0-alpha.22" = some ⟨some "v0.12.0-alpha.27", some "2.1.1"⟩ := by decide +kernel
  refine ⟨hrow, fun h => ?_⟩
  obtain ⟨c', hc', hsdk, -⟩ := (h _ rfl).clis _ _ hold
  cases hrow.symm.trans hc'
  exact (hsdk (by decide)).2 rfl

end ReleaseValidation.Catalog
