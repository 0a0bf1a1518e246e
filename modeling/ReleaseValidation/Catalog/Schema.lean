import ReleaseValidation.Foundations.References
import ReleaseValidation.Catalog.ReleaseBodies

/-! # The version catalog

Five tables keyed by tag: a node release refers to the CLI it ships with, a CLI to its SDK
and its devnet, a devnet to its contracts. The statements of all writers are the nine
writes below. Columns that are only displayed are left out.
-/
namespace ReleaseValidation.Catalog
open References

inductive Table
  | contracts | sdk | devnet | cli | release
  deriving DecidableEq, Repr

structure DevnetRow where
  contractsTag : Option String
  deriving DecidableEq, Repr

structure CliRow where
  sdkTag : Option String
  devnetTag : Option String
  deriving DecidableEq, Repr

structure ReleaseRow where
  cliTag : Option String
  nodeMajorVersion : Option ℤ
  deriving DecidableEq, Repr

abbrev Row : Table → Type
  | .contracts => Unit
  | .sdk => Unit
  | .devnet => DevnetRow
  | .cli => CliRow
  | .release => ReleaseRow

/-- A nullable reference to a table. -/
def ref (t : Table) (tag : Option String) : List (Table × String) := tag.toList.map fun k => (t, k)

def refs : (t : Table) → Row t → List (Table × String)
  | .contracts, _ => []
  | .sdk, _ => []
  | .devnet, r => ref .contracts r.contractsTag
  | .cli, r => ref .sdk r.sdkTag ++ ref .devnet r.devnetTag
  | .release, r => ref .cli r.cliTag

abbrev schema : Schema Table String := ⟨Row, refs⟩

abbrev Db := schema.Db
abbrev Statement := schema.Write

/-- `COALESCE(new, old)`. -/
def coalesce (new old : Option String) : Option String := new.or old

/-- `INSERT INTO sdk_catalog … ON CONFLICT`: the columns that a conflict updates are not kept here. -/
def insertSdk (tag : String) : Statement := ⟨.sdk, tag, fun old => if old.isSome then none else some ()⟩

def insertContracts (tag : String) : Statement := ⟨.contracts, tag, fun old => if old.isSome then none else some ()⟩

def upsertDevnet (tag : String) (contractsTag : Option String) : Statement :=
  ⟨.devnet, tag, fun
    | none => some ⟨contractsTag⟩
    | some old => some ⟨coalesce contractsTag old.contractsTag⟩⟩

def upsertCli (tag : String) (sdkTag devnetTag : Option String) : Statement :=
  ⟨.cli, tag, fun
    | none => some ⟨sdkTag, devnetTag⟩
    | some old => some ⟨coalesce sdkTag old.sdkTag, coalesce devnetTag old.devnetTag⟩⟩

def upsertRelease (tag : String) (cliTag : Option String) (major : ℤ) : Statement :=
  ⟨.release, tag, fun
    | none => some ⟨cliTag, some major⟩
    | some old => some ⟨coalesce cliTag old.cliTag, some major⟩⟩

/-- `UPDATE release_catalog SET cli_tag = … WHERE tag = … AND cli_tag IS NULL`. -/
def backfillRelease (nodeTag cliTag : String) : Statement :=
  ⟨.release, nodeTag, fun old =>
    old.bind fun r => if r.cliTag = none then some { r with cliTag := some cliTag } else none⟩

/-- `UPDATE release_catalog SET cli_tag = … WHERE tag = …`. -/
def setReleaseCli (tag : String) (cliTag : Option String) : Statement :=
  ⟨.release, tag, fun old => old.map fun r => { r with cliTag := cliTag }⟩

/-- `UPDATE cli_catalog SET sdk_tag = COALESCE(…), devnet_tag = COALESCE(…) WHERE tag = …`. -/
def updateCli (tag : String) (sdkTag devnetTag : Option String) : Statement :=
  ⟨.cli, tag, fun old => old.map fun r => ⟨coalesce sdkTag r.sdkTag, coalesce devnetTag r.devnetTag⟩⟩

/-- `UPDATE devnet_catalog SET contracts_tag = … WHERE tag = …`. -/
def setDevnetContracts (tag contractsTag : String) : Statement :=
  ⟨.devnet, tag, fun old => old.map fun _ => ⟨some contractsTag⟩⟩

/-- What the join from a release through its CLI and devnet selects. -/
structure Toolchain where
  nodeMajorVersion : Option ℤ
  imageTag : String
  cliTag : Option String
  sdkTag : Option String
  devnetTag : Option String
  contractsTag : Option String
  deriving DecidableEq, Repr

/-- `release_catalog LEFT JOIN cli_catalog LEFT JOIN devnet_catalog WHERE tag = …`. -/
def lookup (db : Db) (tag : String) : Option Toolchain :=
  (db .release tag).map fun rc =>
    let c : Option CliRow := rc.cliTag.bind (db .cli)
    let sdkTag := c.bind CliRow.sdkTag
    let devnetTag := c.bind CliRow.devnetTag
    let d : Option DevnetRow := devnetTag.bind (db .devnet)
    { nodeMajorVersion := rc.nodeMajorVersion
      imageTag :=
        match rc.nodeMajorVersion, sdkTag with
        | some major, some sdk =>
          if 2 ≤ major then "cartesi/rollups-runtime:" ++ lstripV sdk else "cartesi/rollups-node:" ++ lstripV tag
        | _, _ => "cartesi/rollups-node:" ++ lstripV tag
      cliTag := c.bind fun _ => rc.cliTag
      sdkTag := sdkTag
      devnetTag := devnetTag
      contractsTag := d.bind DevnetRow.contractsTag }

theorem mem_ref {t : Table} {tag : Option String} {p : Table × String} :
    p ∈ ref t tag ↔ p.1 = t ∧ tag = some p.2 := by
  obtain ⟨t', k⟩ := p
  cases tag with
  | none => simp [ref]
  | some tag => simp [ref, eq_comm, and_comm]

theorem mem_ref_coalesce {t : Table} {new old : Option String} {p : Table × String} (h : p ∈ ref t (coalesce new old)) :
    p ∈ ref t new ∨ p ∈ ref t old := by
  cases new with
  | none => exact Or.inr h
  | some tag => exact Or.inl h

section Statements
variable {tag : String} {sdkTag devnetTag contractsTag cliTag : Option String}

theorem insertSdk_inserts : (insertSdk tag).Inserts := rfl
theorem insertContracts_inserts : (insertContracts tag).Inserts := rfl
theorem upsertDevnet_inserts : (upsertDevnet tag contractsTag).Inserts := rfl
theorem upsertCli_inserts : (upsertCli tag sdkTag devnetTag).Inserts := rfl

theorem insertSdk_uses : (insertSdk tag).Uses [] := by
  intro old r _ p hp
  cases hp

theorem insertContracts_uses : (insertContracts tag).Uses [] := by
  intro old r _ p hp
  cases hp

theorem upsertDevnet_uses : (upsertDevnet tag contractsTag).Uses (ref .contracts contractsTag) := by
  intro old r hr p hp
  cases old with
  | none =>
    cases hr
    exact Or.inl hp
  | some old =>
    cases hr
    exact mem_ref_coalesce hp

theorem upsertCli_uses : (upsertCli tag sdkTag devnetTag).Uses (ref .sdk sdkTag ++ ref .devnet devnetTag) := by
  intro old r hr p hp
  cases old with
  | none =>
    cases hr
    exact Or.inl hp
  | some old =>
    cases hr
    rcases List.mem_append.mp hp with hp | hp
    · exact (mem_ref_coalesce hp).imp (List.mem_append_left _) (List.mem_append_left _)
    · exact (mem_ref_coalesce hp).imp (List.mem_append_right _) (List.mem_append_right _)

theorem updateCli_uses : (updateCli tag sdkTag devnetTag).Uses (ref .sdk sdkTag ++ ref .devnet devnetTag) := by
  intro old r hr p hp
  cases old with
  | none => cases hr
  | some old =>
    have huses : (upsertCli tag sdkTag devnetTag).Uses (ref .sdk sdkTag ++ ref .devnet devnetTag) := upsertCli_uses
    exact huses (some old) r hr p hp

theorem upsertRelease_uses {major : ℤ} : (upsertRelease tag cliTag major).Uses (ref .cli cliTag) := by
  intro old r hr p hp
  cases old with
  | none =>
    cases hr
    exact Or.inl hp
  | some old =>
    cases hr
    exact mem_ref_coalesce hp

theorem backfillRelease_uses {cli : String} : (backfillRelease tag cli).Uses [(.cli, cli)] := by
  intro old r hr p hp
  obtain ⟨o, rfl, hset⟩ := Option.bind_eq_some_iff.mp hr
  split at hset
  next =>
    cases hset
    exact Or.inl hp
  next => cases hset

theorem setReleaseCli_uses : (setReleaseCli tag cliTag).Uses (ref .cli cliTag) := by
  intro old r hr p hp
  obtain ⟨o, rfl, rfl⟩ := Option.map_eq_some_iff.mp hr
  exact Or.inl hp

theorem setDevnetContracts_uses {contracts : String} :
    (setDevnetContracts tag contracts).Uses [(.contracts, contracts)] := by
  intro old r hr p hp
  obtain ⟨o, rfl, rfl⟩ := Option.map_eq_some_iff.mp hr
  exact Or.inl hp

end Statements
end ReleaseValidation.Catalog
