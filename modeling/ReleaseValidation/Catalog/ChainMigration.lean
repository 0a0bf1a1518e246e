import Mathlib.Data.List.Dedup
import ReleaseValidation.Catalog.Writers
import ReleaseValidation.Foundations.Tables

/-! # The migration to a chain of references

Before migration 0006 the rows of the catalog repeat what they say about each other: a node
release has columns for its whole toolchain, and the other catalogs have columns that refer
back. The migration makes the devnets of the CLI rows a table of their own, turns the CLI
version of a release into a reference, and drops the columns that repeat.
-/
namespace ReleaseValidation.Catalog.ChainMigration

/-- A row of `release_catalog` before the migration. -/
structure OldRelease where
  nodeMajorVersion : Option ℤ
  sdkVersion : Option String
  cliVersion : Option String
  devnetVersion : Option String
  contractsVersion : Option String
  deriving DecidableEq, Repr

structure OldCli where
  nodeReleaseTag : Option String
  sdkTag : Option String
  devnetTag : Option String
  contractsTag : Option String
  deriving DecidableEq, Repr

structure OldSdk where
  nodeReleaseTag : Option String
  cliTag : Option String
  deriving DecidableEq, Repr

structure OldContracts where
  devnetTag : Option String
  cliTag : Option String
  nodeReleaseTag : Option String
  sdkTag : Option String
  deriving DecidableEq, Repr

/-- The four catalogs before the migration, each with its tags for keys. -/
structure Old where
  releases : AList fun _ : String => OldRelease
  clis : AList fun _ : String => OldCli
  sdks : AList fun _ : String => OldSdk
  contracts : AList fun _ : String => OldContracts

section Migration
variable (old : Old)

/-- `SELECT DISTINCT devnet_tag, contracts_tag … FROM cli_catalog WHERE devnet_tag IS NOT NULL`; the
third column is computed from the first. -/
def devnetRows : List (String × DevnetRow) :=
  (old.clis.entries.filterMap fun e => e.2.devnetTag.map fun d => (d, ⟨e.2.contractsTag⟩)).dedup

/-- The row of a release once `cli_tag` is set and the repeating columns are dropped. -/
def OldRelease.migrated (r : OldRelease) : ReleaseRow := ⟨r.cliVersion.map ensureV, r.nodeMajorVersion⟩

def OldCli.migrated (c : OldCli) : CliRow := ⟨c.sdkTag, c.devnetTag⟩

/-- Migration 0006, or nothing when it is rolled back: `ON CONFLICT (tag) DO UPDATE` may not update a
row that the same statement has inserted. -/
def migrate : Option Db :=
  (Tables.insertOnce ∅ (devnetRows old)).map fun devnets table tag =>
    match table with
    | .contracts => (old.contracts.lookup tag).map fun _ => ()
    | .sdk => (old.sdks.lookup tag).map fun _ => ()
    | .devnet => devnets.lookup tag
    | .cli => (old.clis.lookup tag).map OldCli.migrated
    | .release => (old.releases.lookup tag).map OldRelease.migrated

/-! ### What the old rows say -/

/-- A cell that names, for the entry of one table, its entry of another. -/
structure Fact where
  holder : Table
  tag : String
  target : Table
  value : String
  deriving DecidableEq, Repr

def column (holder : Table) (tag : String) (target : Table) (cell : Option String) : List Fact :=
  cell.toList.map fun value => ⟨holder, tag, target, value⟩

/-- A cell that refers back. -/
def backward (holder : Table) (cell : Option String) (target : Table) (tag : String) : List Fact :=
  cell.toList.map fun holderTag => ⟨holder, holderTag, target, tag⟩

def OldRelease.facts (tag : String) (r : OldRelease) : List Fact :=
  column .release tag .cli r.cliVersion ++ column .release tag .sdk r.sdkVersion ++
    column .release tag .devnet r.devnetVersion ++ column .release tag .contracts r.contractsVersion

def OldCli.facts (tag : String) (c : OldCli) : List Fact :=
  column .cli tag .sdk c.sdkTag ++ column .cli tag .devnet c.devnetTag ++ column .cli tag .contracts c.contractsTag ++
    backward .release c.nodeReleaseTag .cli tag

def OldSdk.facts (tag : String) (s : OldSdk) : List Fact :=
  backward .release s.nodeReleaseTag .sdk tag ++ backward .cli s.cliTag .sdk tag

def OldContracts.facts (tag : String) (k : OldContracts) : List Fact :=
  backward .release k.nodeReleaseTag .contracts tag ++ backward .cli k.cliTag .contracts tag ++
    backward .sdk k.sdkTag .contracts tag ++ backward .devnet k.devnetTag .contracts tag

def facts : List Fact :=
  (old.releases.entries.flatMap fun e => e.2.facts e.1) ++ (old.clis.entries.flatMap fun e => e.2.facts e.1) ++
    (old.sdks.entries.flatMap fun e => e.2.facts e.1) ++ old.contracts.entries.flatMap fun e => e.2.facts e.1

/-- Versions of the toolchain are stored with a `v` or without. -/
def name : Table → String → String
  | .release, tag => tag
  | _, tag => ensureV tag

/-- The old rows name the entry for the release, directly or from one entry to the next. -/
inductive Stated (tag : String) : Table → String → Prop
  | self : Stated tag .release tag
  | fact {f : Fact} : f ∈ facts old → Stated tag f.holder (name f.holder f.tag) → Stated tag f.target (name f.target f.value)

/-- The old rows do not contradict each other on the entry for the release. -/
def Uncontradicted (tag : String) (table : Table) : Prop :=
  ∀ v w, Stated old tag table v → Stated old tag table w → v = w

end Migration

/-- The tag that the join selects for a table. -/
def tagOf (tool : Toolchain) : Table → Option String
  | .release => none
  | .cli => tool.cliTag
  | .sdk => tool.sdkTag
  | .devnet => tool.devnetTag
  | .contracts => tool.contractsTag

section Property
variable (old : Old)

/-- From every release the join reaches what the old rows name for it without contradiction. -/
def Preserved (db : Db) : Prop :=
  ∀ tag ∈ old.releases, ∀ table ≠ .release, ∀ v, Stated old tag table v → Uncontradicted old tag table →
    ∃ tool t, lookup db tag = some tool ∧ tagOf tool table = some t ∧ name table t = v

/-- CLI rows with one devnet have one contracts tag, or all have none. -/
def DevnetsAgree : Prop :=
  ∀ e ∈ old.clis.entries, ∀ e' ∈ old.clis.entries, ∀ d, e.2.devnetTag = some d → e'.2.devnetTag = some d →
    e.2.contractsTag = e'.2.contractsTag

/-- The CLI tag of the release, if it has the name of a row. -/
def cliOf (tag : String) : Option (String × OldCli) :=
  (old.releases.lookup tag).bind fun r => (r.cliVersion.map ensureV).bind fun cli => (old.clis.lookup cli).map (cli, ·)

/-- What is left of the way from the release to a table. -/
def remaining (tag : String) : Table → Option String
  | .release => none
  | .cli => (cliOf old tag).map Prod.fst
  | .sdk => (cliOf old tag).bind fun c => c.2.sdkTag
  | .devnet => (cliOf old tag).bind fun c => c.2.devnetTag
  | .contracts => (cliOf old tag).bind fun c => c.2.devnetTag.bind fun _ => c.2.contractsTag

/-- The columns that stay lead from the release to the table. -/
def Linked (tag : String) (table : Table) : Prop := (remaining old tag table).isSome = true

end Property

section Proofs
variable {old : Old} {db : Db} {tag t : String} {table : Table}

theorem ensureV_ensureV (s : String) : ensureV (ensureV s) = ensureV s := by
  unfold ensureV
  by_cases h : s.toList.head? = some 'v'
  · rw [if_pos h, if_pos h]
  · rw [if_neg h]
    have hv : (withV s).toList.head? = some 'v' := by simp [withV]
    rw [if_pos hv]

theorem mem_devnetRows {p : String × DevnetRow} :
    p ∈ devnetRows old ↔ ∃ e ∈ old.clis.entries, e.2.devnetTag = some p.1 ∧ p.2 = ⟨e.2.contractsTag⟩ := by
  rw [devnetRows, List.mem_dedup, List.mem_filterMap]
  constructor
  · rintro ⟨e, he, hp⟩
    obtain ⟨d, hd, rfl⟩ := Option.map_eq_some_iff.mp hp
    exact ⟨e, he, hd, rfl⟩
  · rintro ⟨e, he, hd, hrow⟩
    exact ⟨e, he, by rw [hd, Option.map_some, ← hrow]⟩

/-- The migration is rolled back exactly when two CLI rows disagree on a devnet. -/
theorem migrate_isSome_iff : (migrate old).isSome = true ↔ DevnetsAgree old := by
  rw [migrate, Option.isSome_map, Tables.insertOnce_isSome_iff]
  have hfree : ∀ x ∈ devnetRows old, x.1 ∉ (∅ : Tables.Table String DevnetRow) := fun x _ => AList.notMem_empty x.1
  have hnodup : (devnetRows old).Nodup := List.nodup_dedup _
  rw [and_iff_left hfree, List.nodup_map_iff_inj_on hnodup]
  constructor
  · intro h e he e' he' d hd hd'
    have hrow := h (d, ⟨e.2.contractsTag⟩) (mem_devnetRows.mpr ⟨e, he, hd, rfl⟩) (d, ⟨e'.2.contractsTag⟩)
      (mem_devnetRows.mpr ⟨e', he', hd', rfl⟩) rfl
    exact congrArg (fun p : String × DevnetRow => p.2.contractsTag) hrow
  · rintro h ⟨d, row⟩ hp ⟨d', row'⟩ hp' rfl
    obtain ⟨e, he, hd, hrow⟩ := mem_devnetRows.mp hp
    obtain ⟨e', he', hd', hrow'⟩ := mem_devnetRows.mp hp'
    have hcontracts := h e he e' he' _ hd hd'
    exact Prod.ext rfl (hrow.trans ((congrArg DevnetRow.mk hcontracts).trans hrow'.symm))

/-- After the migration the join reaches what is left of the way in the old rows. -/
theorem lookup_migrate (h : migrate old = some db) (htag : tag ∈ old.releases) :
    ∃ tool, lookup db tag = some tool ∧ ∀ table, tagOf tool table = remaining old tag table := by
  obtain ⟨devnets, hdevnets, rfl⟩ := Option.map_eq_some_iff.mp h
  obtain ⟨r, hr⟩ := Option.isSome_iff_exists.mp (AList.lookup_isSome.mpr htag)
  refine ⟨_, by rw [lookup, hr]; rfl, fun table => ?_⟩
  have hcli : cliOf old tag = (r.cliVersion.map ensureV).bind fun cli => (old.clis.lookup cli).map (cli, ·) := by
    rw [cliOf, hr]
    rfl
  cases hversion : r.cliVersion with
  | none =>
    rw [hversion] at hcli
    cases table <;> simp [tagOf, remaining, hcli, OldRelease.migrated, hversion]
  | some v =>
    rw [hversion, Option.map_some, Option.bind_some] at hcli
    cases hrow : old.clis.lookup (ensureV v) with
    | none =>
      rw [hrow] at hcli
      cases table <;> simp [tagOf, remaining, hcli, OldRelease.migrated, hversion, hrow]
    | some c =>
      rw [hrow] at hcli
      cases table with
      | contracts =>
        cases hd : c.devnetTag with
        | none => simp [tagOf, remaining, hcli, OldRelease.migrated, OldCli.migrated, hversion, hrow, hd]
        | some d =>
          have hmem : (d, (⟨c.contractsTag⟩ : DevnetRow)) ∈ devnetRows old :=
            mem_devnetRows.mpr ⟨_, AList.mem_lookup_iff.mp hrow, hd, rfl⟩
          have hdevnet := Tables.lookup_insertOnce hdevnets (.inr hmem)
          simp [tagOf, remaining, hcli, OldRelease.migrated, OldCli.migrated, hversion, hrow, hd, hdevnet]
      | _ => simp [tagOf, remaining, hcli, OldRelease.migrated, OldCli.migrated, hversion, hrow]

theorem name_ensureV (h : table ≠ .release) (s : String) : name table (ensureV s) = name table s := by
  cases table with
  | release => exact absurd rfl h
  | _ => exact ensureV_ensureV s

theorem mem_column {f : Fact} {holder target : Table} {cell : Option String} (h : cell = some t) :
    f = ⟨holder, tag, target, t⟩ → f ∈ column holder tag target cell := by
  rintro rfl
  rw [column, h]
  exact List.mem_singleton_self _

theorem facts_of_release {r : OldRelease} {f : Fact} (hr : old.releases.lookup tag = some r) (hf : f ∈ r.facts tag) :
    f ∈ facts old := by
  have hmem : f ∈ old.releases.entries.flatMap fun e => e.2.facts e.1 :=
    List.mem_flatMap.mpr ⟨_, AList.mem_lookup_iff.mp hr, hf⟩
  simp only [facts, List.mem_append]
  exact .inl (.inl (.inl hmem))

theorem facts_of_cli {c : OldCli} {f : Fact} (hc : old.clis.lookup tag = some c) (hf : f ∈ c.facts tag) :
    f ∈ facts old := by
  have hmem : f ∈ old.clis.entries.flatMap fun e => e.2.facts e.1 :=
    List.mem_flatMap.mpr ⟨_, AList.mem_lookup_iff.mp hc, hf⟩
  simp only [facts, List.mem_append]
  exact .inl (.inl (.inr hmem))

/-- What is left of the way is something that the old rows say. -/
theorem stated_remaining (h : remaining old tag table = some t) : Stated old tag table (name table t) := by
  have hway : ∀ cli c, cliOf old tag = some (cli, c) →
      Stated old tag .cli (name .cli cli) ∧ old.clis.lookup cli = some c := by
    intro cli c hcli
    obtain ⟨r, hr, hcli⟩ := Option.bind_eq_some_iff.mp hcli
    obtain ⟨cli', hversion, hcli⟩ := Option.bind_eq_some_iff.mp hcli
    obtain ⟨v, hv, rfl⟩ := Option.map_eq_some_iff.mp hversion
    obtain ⟨c', hc, he⟩ := Option.map_eq_some_iff.mp hcli
    cases he
    have hfact : ⟨.release, tag, .cli, v⟩ ∈ r.facts tag := by
      simp only [OldRelease.facts, List.mem_append]
      exact .inl (.inl (.inl (mem_column hv rfl)))
    have hname : name .cli (ensureV v) = name .cli v := name_ensureV (by decide) v
    rw [hname]
    exact ⟨.fact (facts_of_release hr hfact) .self, hc⟩
  cases table with
  | release => cases h
  | cli =>
    obtain ⟨⟨cli, c⟩, hcli, rfl⟩ := Option.map_eq_some_iff.mp h
    exact (hway cli c hcli).1
  | sdk =>
    obtain ⟨⟨cli, c⟩, hcli, hsdk⟩ := Option.bind_eq_some_iff.mp h
    obtain ⟨hstated, hc⟩ := hway cli c hcli
    have hfact : ⟨.cli, cli, .sdk, t⟩ ∈ c.facts cli := by
      simp only [OldCli.facts, List.mem_append]
      exact .inl (.inl (.inl (mem_column hsdk rfl)))
    exact .fact (facts_of_cli hc hfact) hstated
  | devnet =>
    obtain ⟨⟨cli, c⟩, hcli, hdevnet⟩ := Option.bind_eq_some_iff.mp h
    obtain ⟨hstated, hc⟩ := hway cli c hcli
    have hfact : ⟨.cli, cli, .devnet, t⟩ ∈ c.facts cli := by
      simp only [OldCli.facts, List.mem_append]
      exact .inl (.inl (.inr (mem_column hdevnet rfl)))
    exact .fact (facts_of_cli hc hfact) hstated
  | contracts =>
    obtain ⟨⟨cli, c⟩, hcli, hrest⟩ := Option.bind_eq_some_iff.mp h
    obtain ⟨d, -, hcontracts⟩ := Option.bind_eq_some_iff.mp hrest
    obtain ⟨hstated, hc⟩ := hway cli c hcli
    have hfact : ⟨.cli, cli, .contracts, t⟩ ∈ c.facts cli := by
      simp only [OldCli.facts, List.mem_append]
      exact .inl (.inr (mem_column hcontracts rfl))
    exact .fact (facts_of_cli hc hfact) hstated

theorem preserved_iff (h : migrate old = some db) : Preserved old db ↔
    ∀ tag ∈ old.releases, ∀ table ≠ .release, (∃ v, Stated old tag table v) → Uncontradicted old tag table →
      Linked old tag table := by
  constructor
  · rintro hpreserved tag htag table htable ⟨v, hv⟩ hunique
    obtain ⟨tool, t, htool, ht, -⟩ := hpreserved tag htag table htable v hv hunique
    obtain ⟨tool', htool', hremaining⟩ := lookup_migrate h htag
    cases htool.symm.trans htool'
    rw [Linked, ← hremaining, ht]
    rfl
  · intro hlinked tag htag table htable v hv hunique
    obtain ⟨t, ht⟩ := Option.isSome_iff_exists.mp (hlinked tag htag table htable ⟨v, hv⟩ hunique)
    obtain ⟨tool, htool, hremaining⟩ := lookup_migrate h htag
    exact ⟨tool, t, htool, (hremaining table).trans ht, hunique _ _ (stated_remaining ht) hv⟩

/-- The migration completes and preserves what the rows say exactly when CLI rows agree on their devnets
and the columns that stay lead to everything that is said without contradiction. -/
theorem migration_preserves_iff : (∃ db, migrate old = some db ∧ Preserved old db) ↔
    DevnetsAgree old ∧ ∀ tag ∈ old.releases, ∀ table ≠ .release, (∃ v, Stated old tag table v) →
      Uncontradicted old tag table → Linked old tag table := by
  rw [← migrate_isSome_iff]
  constructor
  · rintro ⟨db, hdb, hpreserved⟩
    exact ⟨by rw [hdb]; rfl, (preserved_iff hdb).mp hpreserved⟩
  · rintro ⟨hsome, hlinked⟩
    obtain ⟨db, hdb⟩ := Option.isSome_iff_exists.mp hsome
    exact ⟨db, hdb, (preserved_iff hdb).mpr hlinked⟩

end Proofs

/-- Two CLI releases with one devnet, the contracts of the second unknown. -/
def sharedDevnet : Old where
  releases := ∅
  clis := AList.insert "v2.0.0-alpha.33" ⟨none, none, some "2.0.0-alpha.9", none⟩
    (AList.singleton "v2.0.0-alpha.34" ⟨none, some "v0.12.0-alpha.39", some "2.0.0-alpha.9", some "v2.0.0"⟩)
  sdks := ∅
  contracts := ∅

/-- A release whose SDK is known and whose CLI is not. -/
def sdkOnly : Old where
  releases := AList.singleton "v2.0.0-alpha.10" ⟨some 2, some "0.12.0-alpha.30", none, none, none⟩
  clis := ∅
  sdks := ∅
  contracts := ∅

theorem migration_fails :
    migrate sharedDevnet = none ∧
      ((migrate sdkOnly).bind fun db => lookup db "v2.0.0-alpha.10").map Toolchain.sdkTag = some none :=
  ⟨Option.isNone_iff_eq_none.mp (by decide +kernel), by decide +kernel⟩

end ReleaseValidation.Catalog.ChainMigration
