import ReleaseValidation.Catalog.Integrity

/-! # What the watcher's writers do to a row

A node release writes its own row and the row of the CLI that was found for it; a CLI
release writes its own row and, if it has none yet, the CLI of the node it names. All other
rows of the two tables stay as they are.
-/
namespace ReleaseValidation.Catalog
open Runs References Schema

/-- `sdk_tag` and `devnet_tag` after an upsert: the new values, and the old ones where there are none. -/
def mergedCli (sdkTag devnetTag : Option String) (old : Option CliRow) : CliRow where
  sdkTag := coalesce sdkTag (old.bind CliRow.sdkTag)
  devnetTag := coalesce devnetTag (old.bind CliRow.devnetTag)

/-- `cli_tag` after the backfill. -/
def backfilled (cliTag : String) (r : ReleaseRow) : ReleaseRow := { r with cliTag := coalesce r.cliTag (some cliTag) }

theorem upsertCli_row {tag : String} {sdkTag devnetTag : Option String} (old : Option CliRow) :
    ((upsertCli tag sdkTag devnetTag).row old).or old = some (mergedCli sdkTag devnetTag old) := by
  cases old with
  | none => simp [upsertCli, mergedCli, coalesce]
  | some r => rfl

theorem upsertRelease_row {tag : String} {cliTag : Option String} {major : ℤ} (old : Option ReleaseRow) :
    ((upsertRelease tag cliTag major).row old).or old =
      some ⟨coalesce cliTag (old.bind ReleaseRow.cliTag), some major⟩ := by
  cases old with
  | none => simp [upsertRelease, coalesce]
  | some r => rfl

theorem backfillRelease_row {node cli : String} (old : Option ReleaseRow) :
    ((backfillRelease node cli).row old).or old = old.map (backfilled cli) := by
  cases old with
  | none => rfl
  | some r =>
    obtain ⟨cliTag, major⟩ := r
    cases cliTag <;> rfl

section Chains
variable {sdkTag contractsTag devnetTag cliTag : Option String}

theorem chain_eq : chain sdkTag contractsTag devnetTag cliTag =
    chain sdkTag contractsTag devnetTag none ++ (present cliTag).toList.map fun tag => upsertCli tag sdkTag devnetTag := by
  have hnone : (present none).toList = [] := rfl
  simp [chain, hnone]

theorem table_of_mem_chain {w : Statement} (hw : w ∈ chain sdkTag contractsTag devnetTag none) :
    w.table = .sdk ∨ w.table = .contracts ∨ w.table = .devnet := by
  have hnone : (present none).toList = [] := rfl
  simp only [chain, hnone, List.map_nil, List.append_nil, List.mem_append, List.mem_map] at hw
  rcases hw with (⟨k, -, rfl⟩ | ⟨k, -, rfl⟩) | ⟨k, -, rfl⟩
  · exact Or.inl rfl
  · exact Or.inr (Or.inl rfl)
  · exact Or.inr (Or.inr rfl)

theorem key_ne_of_mem_chain {t : Table} {k : String} {w : Statement} (ht : t = .cli ∨ t = .release)
    (hw : w ∈ chain sdkTag contractsTag devnetTag none) : (t, k) ≠ (w.table, w.key) := by
  intro h
  have htable : t = w.table := congrArg Prod.fst h
  rw [htable] at ht
  rcases table_of_mem_chain hw with h1 | h1 | h1 <;> rw [h1] at ht <;> rcases ht with h2 | h2 <;> cases h2

theorem release_ne_of_mem_chain {k : String} {w : Statement} (hw : w ∈ chain sdkTag contractsTag devnetTag cliTag) :
    (Table.release, k) ≠ (w.table, w.key) := by
  rw [chain_eq] at hw
  rcases List.mem_append.mp hw with hw | hw
  · exact key_ne_of_mem_chain (Or.inr rfl) hw
  · obtain ⟨tag, -, rfl⟩ := List.mem_map.mp hw
    intro h
    have htable : Table.release = .cli := congrArg Prod.fst h
    cases htable

end Chains

section Writers
variable {ch : Characters} {db db' : Db} {rel : Release}

theorem transaction_of_step {a : Act} (h : step ch db a = some db')
    (hfirst : ParentsFirst NotBlank [] (a.statements ch db)) : transaction db (a.statements ch db) = some db' := by
  have hcompletes : ∃ t, exec Write.run db (a.statements ch db) = some t :=
    hfirst.completes fun _ hp => absurd hp List.not_mem_nil
  obtain ⟨t, ht⟩ := hcompletes
  have hstep : step ch db a = some t := by
    simp only [step, transaction, ht, Option.getD_some]
  rw [transaction, ht, ← hstep, h]

/-- The versions that count for a node release: none below the second major version. -/
def usedVersions (ch : Characters) (versions : Versions) (rel : Release) : Versions :=
  if 2 ≤ nodeMajorVersion ch rel.tagName then versions else .unknown

theorem upsertNodeCatalog_eq {versions v : Versions} (hv : usedVersions ch versions rel = v) :
    upsertNodeCatalog ch versions rel =
      chain (presentV v.sdk) (presentV v.contracts) (present v.devnet) (presentV v.cli) ++
        [upsertRelease rel.tagName (presentV v.cli) (nodeMajorVersion ch rel.tagName)] := by
  subst hv
  rfl

theorem node_release {versions v : Versions} (h : step ch db (.upsertNodeCatalog versions rel) = some db')
    (hv : usedVersions ch versions rel = v) (k : String) :
    db' .release k = if k = rel.tagName then
      some ⟨coalesce (presentV v.cli) ((db .release k).bind ReleaseRow.cliTag), some (nodeMajorVersion ch rel.tagName)⟩
      else db .release k := by
  have hrun := transaction_of_step h (upsertNodeCatalog_first ch versions rel)
  simp only [Act.statements, upsertNodeCatalog_eq hv, transaction] at hrun
  split
  next hk =>
    subst hk
    have hrow : db' .release rel.tagName = ((upsertRelease rel.tagName (presentV v.cli) _).row
        (db .release rel.tagName)).or (db .release rel.tagName) :=
      exec_row hrun (fun w hw => release_ne_of_mem_chain hw) fun w hw => absurd hw List.not_mem_nil
    exact hrow.trans (upsertRelease_row _)
  next hk =>
    refine exec_frame hrun fun w hw => ?_
    rcases List.mem_append.mp hw with hw | hw
    · exact release_ne_of_mem_chain hw
    · rw [List.mem_singleton.mp hw]
      exact fun h => hk (congrArg Prod.snd h)

theorem node_cli {versions v : Versions} (h : step ch db (.upsertNodeCatalog versions rel) = some db')
    (hv : usedVersions ch versions rel = v) (k : String) :
    db' .cli k = if presentV v.cli = some k then some (mergedCli (presentV v.sdk) (present v.devnet) (db .cli k))
      else db .cli k := by
  have hrun := transaction_of_step h (upsertNodeCatalog_first ch versions rel)
  simp only [Act.statements, upsertNodeCatalog_eq hv, transaction] at hrun
  rw [chain_eq, present_of_ne (presentV_ne v.cli), List.append_assoc] at hrun
  have hrelease : ∀ cliTag, ∀ w ∈ [upsertRelease rel.tagName cliTag (nodeMajorVersion ch rel.tagName)],
      (Table.cli, k) ≠ (w.table, w.key) := by
    intro cliTag w hw h
    rw [List.mem_singleton.mp hw] at h
    have htable : Table.cli = .release := congrArg Prod.fst h
    cases htable
  split
  next hk =>
    simp only [hk, Option.toList_some, List.map_cons, List.map_nil, List.singleton_append] at hrun
    have hrow : db' .cli k = ((upsertCli k (presentV v.sdk) (present v.devnet)).row (db .cli k)).or (db .cli k) :=
      exec_row hrun (fun w hw => key_ne_of_mem_chain (Or.inl rfl) hw) (hrelease _)
    exact hrow.trans (upsertCli_row _)
  next hk =>
    refine exec_frame hrun fun w hw => ?_
    rcases List.mem_append.mp hw with hw | hw
    · exact key_ne_of_mem_chain (Or.inl rfl) hw
    rcases List.mem_append.mp hw with hw | hw
    · obtain ⟨tag, htag, rfl⟩ := List.mem_map.mp hw
      intro h
      have hkey : k = tag := congrArg Prod.snd h
      exact hk (by rw [hkey]; exact Option.mem_toList.mp htag)
    · exact hrelease _ w hw

/-- The statement of `upsertCliChain` for the row of the CLI comes between those below and above it. -/
theorem upsertCliChain_eq : upsertCliChain ch rel =
    chain (cliTags ch rel).sdkTag (cliTags ch rel).contractsTag (cliTags ch rel).devnetTag none ++
      upsertCli rel.tagName (cliTags ch rel).sdkTag (cliTags ch rel).devnetTag ::
        (cliTags ch rel).nodeTag.toList.map fun node => backfillRelease node rel.tagName := by
  have hnode : present (cliTags ch rel).nodeTag = (cliTags ch rel).nodeTag := present_of_ne (cliTags_ne ch rel).2.2.2
  simp only [upsertCliChain, hnode, List.append_assoc, List.singleton_append]

theorem cli_cli (h : step ch db (.upsertCliChain rel) = some db') (k : String) :
    db' .cli k = if k = rel.tagName then
      some (mergedCli (cliTags ch rel).sdkTag (cliTags ch rel).devnetTag (db .cli k)) else db .cli k := by
  have hrun := transaction_of_step h (upsertCliChain_first ch rel)
  simp only [Act.statements, upsertCliChain_eq, transaction] at hrun
  have hbackfill : ∀ w ∈ (cliTags ch rel).nodeTag.toList.map fun node => backfillRelease node rel.tagName,
      (Table.cli, k) ≠ (w.table, w.key) := by
    intro w hw h
    obtain ⟨node, -, rfl⟩ := List.mem_map.mp hw
    have htable : Table.cli = .release := congrArg Prod.fst h
    cases htable
  split
  next hk =>
    subst hk
    have hrow : db' .cli rel.tagName = ((upsertCli rel.tagName (cliTags ch rel).sdkTag (cliTags ch rel).devnetTag).row
        (db .cli rel.tagName)).or (db .cli rel.tagName) :=
      exec_row hrun (fun w hw => key_ne_of_mem_chain (Or.inl rfl) hw) hbackfill
    exact hrow.trans (upsertCli_row _)
  next hk =>
    refine exec_frame hrun fun w hw => ?_
    rcases List.mem_append.mp hw with hw | hw
    · exact key_ne_of_mem_chain (Or.inl rfl) hw
    rcases List.mem_cons.mp hw with rfl | hw
    · exact fun h => hk (congrArg Prod.snd h)
    · exact hbackfill w hw

theorem cli_release (h : step ch db (.upsertCliChain rel) = some db') (k : String) :
    db' .release k = if (cliTags ch rel).nodeTag = some k then (db .release k).map (backfilled rel.tagName)
      else db .release k := by
  have hrun := transaction_of_step h (upsertCliChain_first ch rel)
  simp only [Act.statements, upsertCliChain_eq, transaction] at hrun
  have hcli : ∀ w ∈ chain (cliTags ch rel).sdkTag (cliTags ch rel).contractsTag (cliTags ch rel).devnetTag none ++
      [upsertCli rel.tagName (cliTags ch rel).sdkTag (cliTags ch rel).devnetTag],
      (Table.release, k) ≠ (w.table, w.key) := by
    intro w hw
    rcases List.mem_append.mp hw with hw | hw
    · exact key_ne_of_mem_chain (Or.inr rfl) hw
    · intro h
      rw [List.mem_singleton.mp hw] at h
      have htable : Table.release = .cli := congrArg Prod.fst h
      cases htable
  rw [← List.singleton_append, ← List.append_assoc] at hrun
  split
  next hk =>
    rw [hk] at hrun
    have hrow : db' .release k = ((backfillRelease k rel.tagName).row (db .release k)).or (db .release k) :=
      exec_row hrun hcli fun w hw => absurd hw List.not_mem_nil
    exact hrow.trans (backfillRelease_row _)
  next hk =>
    refine exec_frame hrun fun w hw => ?_
    rcases List.mem_append.mp hw with hw | hw
    · exact hcli w hw
    · obtain ⟨node, hnode, rfl⟩ := List.mem_map.mp hw
      intro h
      have hkey : k = node := congrArg Prod.snd h
      exact hk (by rw [hkey]; exact Option.mem_toList.mp hnode)

end Writers
end ReleaseValidation.Catalog
