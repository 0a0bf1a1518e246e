import ReleaseValidation.Catalog.Effects
import ReleaseValidation.Catalog.Resolver

/-! # Linking a node release to its CLI

A node release and the CLI release that names it are detected by two watchers in any order.
Either may link the two: the node's by a scan of the page of CLI releases, the CLI's by a
backfill of a node that is in the catalog without a CLI. A CLI release that is stored is
never handled again, whether or not the node was there.
-/
namespace ReleaseValidation.Catalog.ToolchainLinks
open Runs References

/-- The catalog, and the CLI releases that have passed the guard and are to be stored. -/
structure Watcher where
  db : Db
  pending : List Release

/-- The handling of a node release, with the scan for its versions answered or failed; the guard
of a poll or a webhook for a CLI release; and the handling of a CLI release past the guard. -/
inductive Act
  | processRelease (rel : Release) (scanned : Bool)
  | checkCli (rel : Release)
  | processCli (rel : Release)
  deriving DecidableEq

section Watchers
variable (ch : Characters)

/-- `int(tag.lstrip("v").split(".")[0]) >= 2`. -/
def isCliRelease (tag : String) : Bool := (leadingNumber ch tag).any fun major => decide (2 ≤ major)

/-- A poll goes on to the next release: no tag, not a CLI release, or in the catalog. -/
def skipped (db : Db) (rel : Release) : Bool :=
  let tag := strip ch rel.tagName
  tag == "" || !isCliRelease ch tag || (db .cli tag).isSome

def step (page : List Release) (w : Watcher) : Act → Option Watcher
  | .processRelease rel scanned =>
    let versions := resolveAllVersions ch (if scanned then some page else none) rel.tagName
    (Catalog.step ch w.db (.upsertNodeCatalog versions rel)).map fun db => { w with db := db }
  | .checkCli rel =>
    if rel ∈ page then some (if skipped ch w.db rel then w else { w with pending := rel :: w.pending }) else none
  | .processCli rel =>
    if rel ∈ w.pending then (Catalog.step ch w.db (.upsertCliChain rel)).map fun db => ⟨db, w.pending.erase rel⟩
    else none

/-- A node release that is not in the static tables, and a page on which one release, of a CLI, has a
text that names the node's version: read as a whole, and no other text either so or up to
the limit of the handling of a CLI release. The tags of a page differ. -/
structure Pairing where
  page : List Release
  node : Release
  cli : Release
  major : 2 ≤ nodeMajorVersion ch node.tagName
  unlisted : knownSdk.lookup (lstripV node.tagName) = none ∧ knownCli.lookup (lstripV node.tagName) = none
  mem : cli ∈ page
  isCli : isCliRelease ch cli.tagName = true
  names : cli.Targets ch (lstripV node.tagName)
  only : ∀ rel ∈ page,
    rel.Targets ch (lstripV node.tagName) ∨ (cliTags ch rel).nodeTag = some node.tagName → rel = cli
  distinct : ∀ rel ∈ page, rel.tagName = cli.tagName → rel = cli

variable {ch}

/-- What the text of the CLI release names. -/
def Pairing.named (p : Pairing ch) : BodyVersions := extractVersionsFromCliBody ch p.cli.text

/-- What the handling of the CLI release reads in its text. -/
def Pairing.read (p : Pairing ch) : CliTags := cliTags ch p.cli

def Pairing.Carries (p : Pairing ch) (row : CliRow) : Prop :=
  (∀ v, p.named.sdk = some v → row.sdkTag = some (withV v)) ∧ ∀ v, p.named.devnet = some v → row.devnetTag = some v

/-- The node is linked to the CLI, whose row carries what the text names. -/
def Pairing.Linked (p : Pairing ch) (db : Db) : Prop :=
  (∃ row : ReleaseRow, db .release p.node.tagName = some row ∧ row.cliTag = some p.cli.tagName) ∧
    ∃ row : CliRow, db .cli p.cli.tagName = some row ∧ p.Carries row

/-- The tag of the CLI has the one leading v that the scan puts before a version. -/
def Pairing.Canonical (p : Pairing ch) : Prop := withV (lstripV p.cli.tagName) = p.cli.tagName

/-- The handling of the CLI release reads what the text names. -/
def Pairing.ReadsNamed (p : Pairing ch) : Prop :=
  (∀ v, p.named.sdk = some v → p.read.sdkTag = some (withV v)) ∧
    ∀ v, p.named.devnet = some v → p.read.devnetTag = some v

/-- The handling of the CLI release reads nothing else in place of what the text names. -/
def Pairing.ReadsNoOther (p : Pairing ch) : Prop :=
  (∀ v, p.named.sdk = some v → ∀ u, p.read.sdkTag = some u → u = withV v) ∧
    ∀ v, p.named.devnet = some v → ∀ u, p.read.devnetTag = some u → u = v

end Watchers

/-- The CLI of the node's row, if there is a row, and the row of the CLI. -/
@[ext] structure View where
  link : Option (Option String)
  cli : Option CliRow
  deriving DecidableEq, Repr

section Views
variable {ch : Characters} (p : Pairing ch)

def Pairing.view (db : Db) : View := ⟨(db .release p.node.tagName).map ReleaseRow.cliTag, db .cli p.cli.tagName⟩

/-- The node has been handled. -/
def Pairing.detected (scanned : Bool) (v : View) : View :=
  if scanned then
    { link := some (some (withV (lstripV p.cli.tagName)))
      cli := if withV (lstripV p.cli.tagName) = p.cli.tagName then
          some (mergedCli (p.named.sdk.map withV) p.named.devnet v.cli) else v.cli }
  else { v with link := some (v.link.bind id) }

/-- The CLI has been handled past the guard. -/
def Pairing.stored (v : View) : View where
  link := if p.read.nodeTag = some p.node.tagName then v.link.map (coalesce · (some p.cli.tagName)) else v.link
  cli := some (mergedCli p.read.sdkTag p.read.devnetTag v.cli)

theorem detected_link (v : View) : (p.detected true v).link = some (some (withV (lstripV p.cli.tagName))) := rfl

theorem detected_cli (v : View) (h : p.Canonical) :
    (p.detected true v).cli = some (mergedCli (p.named.sdk.map withV) p.named.devnet v.cli) := if_pos h

theorem stored_link (v : View) : (p.stored v).link =
    if p.read.nodeTag = some p.node.tagName then v.link.map (coalesce · (some p.cli.tagName)) else v.link := by
  simp only [Pairing.stored]

theorem stored_cli (v : View) :
    (p.stored v).cli = some (mergedCli p.read.sdkTag p.read.devnetTag v.cli) := rfl

theorem coalesce_coalesce (a b : Option String) : coalesce a (coalesce a b) = coalesce a b := by
  cases a <;> rfl

theorem stored_stored (v : View) : p.stored (p.stored v) = p.stored v := by
  have hcli : (p.stored (p.stored v)).cli = (p.stored v).cli := by
    simp [Pairing.stored, mergedCli, coalesce_coalesce]
  have hlink : (p.stored (p.stored v)).link = (p.stored v).link := by
    simp only [Pairing.stored]
    split
    next =>
      cases v.link with
      | none => rfl
      | some c => cases c <;> rfl
    next => rfl
  exact View.ext hlink hcli

def Pairing.LinkedView (v : View) : Prop :=
  v.link = some (some p.cli.tagName) ∧ ∃ row : CliRow, v.cli = some row ∧ p.Carries row

theorem linked_iff_view {db : Db} : p.Linked db ↔ p.LinkedView (p.view db) := by
  unfold Pairing.Linked Pairing.LinkedView Pairing.view
  rw [Option.map_eq_some_iff]

theorem extractSdk_ne (body : String) : extractSdkFromBody ch body ≠ some "" := by
  intro h
  obtain ⟨e, he, h⟩ := List.exists_of_findSome?_eq_some h
  have hgroup : e.group = version ch := by
    simp only [sdkPatterns, List.mem_cons, List.not_mem_nil, or_false] at he
    rcases he with rfl | rfl | rfl <;> rfl
  exact searchBody_version_ne hgroup body h

theorem lstripV_cli_ne : lstripV p.cli.tagName ≠ "" := by
  intro hempty
  have hcli := p.isCli
  have hnumber : leadingNumber ch p.cli.tagName = none := by
    simp only [leadingNumber, hempty]
    rfl
  rw [isCliRelease, hnumber] at hcli
  cases hcli

/-- The scan for the node finds the CLI and what its text names, and no versions without an answer. -/
theorem resolve_node (scanned : Bool) :
    resolveAllVersions ch (if scanned then some p.page else none) p.node.tagName =
      if scanned then ⟨p.named.sdk, some (lstripV p.cli.tagName), p.named.devnet, p.named.contracts⟩ else .unknown := by
  have hcollect : collect ch .unknown p.cli =
      ⟨p.named.sdk, some (lstripV p.cli.tagName), p.named.devnet, p.named.contracts⟩ := by
    have hcli : present (some (lstripV p.cli.tagName)) = some (lstripV p.cli.tagName) :=
      present_of_ne fun h => lstripV_cli_ne p (Option.some.inj h)
    have hsdk : present p.named.sdk = p.named.sdk := present_of_ne (extractSdk_ne _)
    have hdevnet : present p.named.devnet = p.named.devnet := present_of_ne (searchBody_version_ne rfl _)
    have hcontracts : present p.named.contracts = p.named.contracts := present_of_ne (searchBody_version_ne rfl _)
    simp only [collect, Versions.unknown, Option.none_or, hcli]
    rw [Versions.mk.injEq]
    exact ⟨hsdk, rfl, hdevnet, hcontracts⟩
  cases scanned with
  | false =>
    simp only [resolveAllVersions, p.unlisted.1, p.unlisted.2]
    rfl
  | true =>
    have hscan : scan ch (lstripV p.node.tagName) .unknown p.page = collect ch .unknown p.cli :=
      scan_unique p.mem p.names fun rel hrel htargets => p.only rel hrel (Or.inl htargets)
    simp only [resolveAllVersions, p.unlisted.1, p.unlisted.2, if_pos, scanCliReleases, hscan, hcollect, Option.none_or]

variable {p} {db db' : Db}

theorem view_detected {scanned : Bool} (h : Catalog.step ch db (.upsertNodeCatalog
    (resolveAllVersions ch (if scanned then some p.page else none) p.node.tagName) p.node) = some db') :
    p.view db' = p.detected scanned (p.view db) := by
  rw [resolve_node p scanned] at h
  have hused : ∀ v, usedVersions ch v p.node = v := fun v => if_pos p.major
  cases scanned with
  | false =>
    simp only [Bool.false_eq_true, if_false] at h
    have hrelease := node_release h (hused _) p.node.tagName
    have hcli := node_cli h (hused _) p.cli.tagName
    have hnone : presentV Versions.unknown.cli ≠ some p.cli.tagName := (Option.some_ne_none _).symm
    rw [if_pos rfl] at hrelease
    rw [if_neg hnone] at hcli
    refine View.ext ?_ hcli
    simp only [Pairing.view, hrelease]
    cases db .release p.node.tagName <;> rfl
  | true =>
    rw [if_pos rfl] at h
    have hrelease := node_release h (hused _) p.node.tagName
    have hcli := node_cli h (hused _) p.cli.tagName
    rw [if_pos rfl] at hrelease
    have hfound : presentV (some (lstripV p.cli.tagName)) = some (withV (lstripV p.cli.tagName)) := by
      rw [presentV, present_of_ne fun h => lstripV_cli_ne p (Option.some.inj h)]
      rfl
    have hsdk : presentV p.named.sdk = p.named.sdk.map withV :=
      congrArg (Option.map withV) (present_of_ne (extractSdk_ne _))
    have hdevnet : present p.named.devnet = p.named.devnet := present_of_ne (searchBody_version_ne rfl _)
    rw [hfound] at hrelease
    simp only [hfound, hsdk, hdevnet, Option.some.injEq] at hcli
    refine View.ext ?_ hcli
    simp only [Pairing.view, hrelease]
    rfl

/-- An action next to the one handling of the node: that of another node release, whose CLI, confirmed
or on the page, is another one. -/
def Pairing.Beside (p : Pairing ch) : Act → Prop
  | .processRelease rel _ => rel.tagName ≠ p.node.tagName ∧
      (knownCli.lookup (lstripV rel.tagName)).map withV ≠ some p.cli.tagName ∧
      ∀ r ∈ p.page, r.Targets ch (lstripV rel.tagName) → withV (lstripV r.tagName) ≠ p.cli.tagName
  | .checkCli _ | .processCli _ => True

/-- The handling of another node release leaves the node and the CLI as they are. -/
theorem view_other_node {rel : Release} {scanned : Bool} (hrel : p.Beside (.processRelease rel scanned))
    (h : Catalog.step ch db (.upsertNodeCatalog
      (resolveAllVersions ch (if scanned then some p.page else none) rel.tagName) rel) = some db') :
    p.view db' = p.view db := by
  obtain ⟨hnode, hconfirmed, hpage⟩ := hrel
  have hrelease := node_release h rfl p.node.tagName
  have hcli := node_cli h rfl p.cli.tagName
  rw [if_neg (Ne.symm hnode)] at hrelease
  rw [if_neg] at hcli
  · exact View.ext (congrArg (Option.map ReleaseRow.cliTag) hrelease) hcli
  · intro hfound
    obtain ⟨x, hx, hwith⟩ := Option.map_eq_some_iff.mp hfound
    have hresolved : (resolveAllVersions ch (if scanned then some p.page else none) rel.tagName).cli = some x := by
      have hused := (Option.filter_eq_some_iff.mp hx).1
      unfold usedVersions at hused
      split at hused
      next => exact hused
      next => cases hused
    rcases cli_of_resolve hresolved with hlisted | ⟨rs, hrs, r, hr, htargets, rfl⟩
    · exact hconfirmed (by rw [hlisted, Option.map_some, hwith])
    · cases scanned with
      | false => cases hrs
      | true =>
        cases Option.some.inj hrs
        exact hpage r hr htargets hwith

theorem view_stored (h : Catalog.step ch db (.upsertCliChain p.cli) = some db') :
    p.view db' = p.stored (p.view db) := by
  have hread : cliTags ch p.cli = p.read := rfl
  have hcli := cli_cli h p.cli.tagName
  have hrelease := cli_release h p.node.tagName
  rw [if_pos rfl, hread] at hcli
  rw [hread] at hrelease
  refine View.ext ?_ hcli
  rw [stored_link]
  by_cases hnode : p.read.nodeTag = some p.node.tagName
  · rw [if_pos hnode] at hrelease ⊢
    simp only [Pairing.view, hrelease, Option.map_map]
    rfl
  · rw [if_neg hnode] at hrelease ⊢
    exact congrArg (Option.map ReleaseRow.cliTag) hrelease

theorem view_other_cli {rel : Release} (hmem : rel ∈ p.page) (hrel : rel ≠ p.cli)
    (h : Catalog.step ch db (.upsertCliChain rel) = some db') : p.view db' = p.view db := by
  have hcli := cli_cli h p.cli.tagName
  have hrelease := cli_release h p.node.tagName
  rw [if_neg fun htag => hrel (p.distinct rel hmem htag.symm)] at hcli
  rw [if_neg fun hread => hrel (p.only rel hmem (Or.inr hread))] at hrelease
  exact View.ext (congrArg (Option.map ReleaseRow.cliTag) hrelease) hcli

end Views

section Runs
variable {ch : Characters} {p : Pairing ch} {w t : Watcher} {as : List Act}

/-- Everything past the guard comes from the page. -/
def Pairing.FromPage (p : Pairing ch) (w : Watcher) : Prop := ∀ rel ∈ w.pending, rel ∈ p.page

/-- The cases of a step. -/
theorem step_cases {page : List Release} {a : Act} (h : step ch page w a = some t) :
    (∃ rel scanned, a = .processRelease rel scanned ∧ t.pending = w.pending ∧ Catalog.step ch w.db (.upsertNodeCatalog
      (resolveAllVersions ch (if scanned then some page else none) rel.tagName) rel) = some t.db) ∨
    (∃ rel, a = .checkCli rel ∧ rel ∈ page ∧ t.db = w.db ∧
      (t.pending = w.pending ∨ skipped ch w.db rel = false ∧ t.pending = rel :: w.pending)) ∨
    ∃ rel, a = .processCli rel ∧ rel ∈ w.pending ∧ t.pending = w.pending.erase rel ∧
      Catalog.step ch w.db (.upsertCliChain rel) = some t.db := by
  cases a with
  | processRelease rel scanned =>
    simp only [step] at h
    obtain ⟨db, hdb, rfl⟩ := Option.map_eq_some_iff.mp h
    exact Or.inl ⟨rel, scanned, rfl, rfl, hdb⟩
  | checkCli rel =>
    simp only [step] at h
    split at h
    next hmem =>
      cases h
      refine Or.inr (Or.inl ⟨rel, rfl, hmem, ?_⟩)
      cases hskip : skipped ch w.db rel with
      | true => exact ⟨rfl, Or.inl rfl⟩
      | false => exact ⟨rfl, Or.inr ⟨rfl, rfl⟩⟩
    next => cases h
  | processCli rel =>
    simp only [step] at h
    split at h
    next hmem =>
      obtain ⟨db, hdb, rfl⟩ := Option.map_eq_some_iff.mp h
      exact Or.inr (Or.inr ⟨rel, rfl, hmem, rfl, hdb⟩)
    next => cases h

theorem fromPage_step {a : Act} (hw : p.FromPage w) (h : step ch p.page w a = some t) : p.FromPage t := by
  rcases step_cases h with ⟨rel, scanned, -, hpending, -⟩ | ⟨rel, -, hmem, -, hpending | ⟨-, hpending⟩⟩ |
    ⟨rel, -, -, hpending, -⟩ <;> intro rel' hrel' <;> rw [hpending] at hrel'
  · exact hw rel' hrel'
  · exact hw rel' hrel'
  · rcases List.mem_cons.mp hrel' with rfl | hrel'
    · exact hmem
    · exact hw rel' hrel'
  · exact hw rel' (List.mem_of_mem_erase hrel')

/-- Only the handling of the CLI past the guard changes the node or the CLI. -/
theorem view_step {a : Act} (hw : p.FromPage w) (ha : p.Beside a) (h : step ch p.page w a = some t) :
    p.view t.db = if a = .processCli p.cli then p.stored (p.view w.db) else p.view w.db := by
  rcases step_cases h with ⟨rel, scanned, rfl, -, hdb⟩ | ⟨rel, rfl, -, hdb, -⟩ | ⟨rel, rfl, hmem, -, hdb⟩
  · rw [if_neg (by simp)]
    exact view_other_node ha hdb
  · rw [if_neg (by simp), hdb]
  · by_cases hrel : rel = p.cli
    · rw [hrel, if_pos rfl]
      rw [hrel] at hdb
      exact view_stored hdb
    · rw [if_neg fun heq => hrel (Act.processCli.inj heq)]
      exact view_other_cli (hw rel hmem) hrel hdb

/-- The number of times that the CLI is handled and what else is handled make no difference. -/
theorem view_run (hw : p.FromPage w) (has : ∀ a ∈ as, p.Beside a) (h : exec (step ch p.page) w as = some t) :
    p.view t.db = if .processCli p.cli ∈ as then p.stored (p.view w.db) else p.view w.db := by
  induction as generalizing w with
  | nil =>
    cases h
    rw [if_neg List.not_mem_nil]
  | cons a as ih =>
    obtain ⟨u, hu, h⟩ := Option.bind_eq_some_iff.mp h
    have hfirst := view_step hw (has a List.mem_cons_self) hu
    have hrest := ih (fromPage_step hw hu) (fun b hb => has b (List.mem_cons_of_mem _ hb)) h
    rw [hrest, hfirst]
    by_cases ha : a = .processCli p.cli
    · have hmem : .processCli p.cli ∈ a :: as := by
        rw [ha]
        exact List.mem_cons_self
      rw [if_pos ha, if_pos hmem, stored_stored, ite_self]
    · have hmem : Act.processCli p.cli ∈ a :: as ↔ .processCli p.cli ∈ as := by
        rw [List.mem_cons, or_iff_right (Ne.symm ha)]
      rw [if_neg ha]
      exact if_congr hmem.symm rfl rfl

/-- What a run leaves of the node and the CLI depends on whether the scan was answered and on when
the CLI was handled, before the node or after it. -/
theorem view_detection {pre post : List Act} {scanned : Bool} (hw : p.FromPage w)
    (hbeside : ∀ a ∈ pre ++ post, p.Beside a)
    (h : exec (step ch p.page) w (pre ++ .processRelease p.node scanned :: post) = some t) :
    let before := if .processCli p.cli ∈ pre then p.stored (p.view w.db) else p.view w.db
    p.view t.db = if .processCli p.cli ∈ post then p.stored (p.detected scanned before)
      else p.detected scanned before := by
  obtain ⟨u, hu, h⟩ := exec_append_iff.mp h
  obtain ⟨v, hv, h⟩ := Option.bind_eq_some_iff.mp h
  have hupage : p.FromPage u := exec_invariant (fun _ _ _ hI hstep => fromPage_step hI hstep) hw hu
  have hpre := view_run hw (fun a ha => hbeside a (List.mem_append_left _ ha)) hu
  have hpost := view_run (fromPage_step hupage hv) (fun a ha => hbeside a (List.mem_append_right _ ha)) h
  have hnode : p.view v.db = p.detected scanned (p.view u.db) := by
    rcases step_cases hv with ⟨rel, scanned', heq, -, hdb⟩ | ⟨rel, heq, -⟩ | ⟨rel, heq, -⟩ <;> cases heq
    exact view_detected hdb
  rw [hpost, ← hpre]
  exact if_congr Iff.rfl (congrArg p.stored hnode) hnode

/-- The CLI is in the catalog, and no handling of it is past the guard. -/
def Pairing.Settled (p : Pairing ch) (w : Watcher) : Prop :=
  (w.db .cli p.cli.tagName).isSome = true ∧ p.cli ∉ w.pending

theorem settled_step {a : Act} (htag : strip ch p.cli.tagName = p.cli.tagName) (hw : p.FromPage w) (ha : p.Beside a)
    (hs : p.Settled w) (h : step ch p.page w a = some t) : a ≠ .processCli p.cli ∧ p.Settled t := by
  obtain ⟨hstored, hidle⟩ := hs
  have hview := view_step hw ha h
  have hcli : (t.db .cli p.cli.tagName).isSome = true := by
    have hsame : t.db .cli p.cli.tagName = (p.view t.db).cli := rfl
    rw [hsame, hview]
    split
    next => rfl
    next => exact hstored
  rcases step_cases h with ⟨rel, scanned, rfl, hpending, -⟩ | ⟨rel, rfl, -, -, hpending | ⟨hskip, hpending⟩⟩ |
    ⟨rel, rfl, hmem, hpending, -⟩
  · exact ⟨by simp, hcli, by rw [hpending]; exact hidle⟩
  · exact ⟨by simp, hcli, by rw [hpending]; exact hidle⟩
  · refine ⟨by simp, hcli, ?_⟩
    rw [hpending, List.mem_cons]
    rintro (rfl | hmem)
    · simp only [skipped, htag, hstored, Bool.or_true] at hskip
      cases hskip
    · exact hidle hmem
  · have hne : rel ≠ p.cli := fun heq => hidle (heq ▸ hmem)
    refine ⟨fun heq => hne (Act.processCli.inj heq), hcli, ?_⟩
    rw [hpending]
    exact fun hmem => hidle (List.mem_of_mem_erase hmem)

/-- The guard lets no settled CLI through again. -/
theorem not_processed_of_settled (htag : strip ch p.cli.tagName = p.cli.tagName) (hw : p.FromPage w)
    (has : ∀ a ∈ as, p.Beside a) (hs : p.Settled w) (h : exec (step ch p.page) w as = some t) :
    .processCli p.cli ∉ as := by
  induction as generalizing w with
  | nil => exact List.not_mem_nil
  | cons a as ih =>
    obtain ⟨u, hu, h⟩ := Option.bind_eq_some_iff.mp h
    obtain ⟨hne, hsettled⟩ := settled_step htag hw (has a List.mem_cons_self) hs hu
    have hrest := ih (fromPage_step hw hu) (fun b hb => has b (List.mem_cons_of_mem _ hb)) hsettled h
    rw [List.mem_cons, not_or]
    exact ⟨Ne.symm hne, hrest⟩

/-- Once the CLI is settled, no further poll links the node to it. -/
theorem unlinked_of_settled (htag : strip ch p.cli.tagName = p.cli.tagName) (hw : p.FromPage w)
    (has : ∀ a ∈ as, p.Beside a) (hs : p.Settled w) (hlink : ¬ p.Linked w.db)
    (h : exec (step ch p.page) w as = some t) : ¬ p.Linked t.db := by
  have hview := view_run hw has h
  rw [if_neg (not_processed_of_settled htag hw has hs h)] at hview
  rw [linked_iff_view, hview, ← linked_iff_view]
  exact hlink

/-- The scan writes what the text names over what the row has. -/
theorem carries_named (old : Option CliRow) : p.Carries (mergedCli (p.named.sdk.map withV) p.named.devnet old) := by
  constructor
  · intro v hv
    simp [mergedCli, hv, coalesce]
  · intro v hv
    simp [mergedCli, hv, coalesce]

theorem coalesce_eq_iff {new : Option String} {v : String} :
    coalesce new (some v) = some v ↔ ∀ u, new = some u → u = v := by
  cases new with
  | none => simp [coalesce]
  | some u => simp [coalesce]

/-- Handling the CLI again keeps what the text names if it reads nothing else in its place. -/
theorem carries_again_iff {row : CliRow} (hrow : p.Carries row) :
    p.Carries (mergedCli p.read.sdkTag p.read.devnetTag (some row)) ↔ p.ReadsNoOther := by
  refine and_congr (forall_congr' fun v => forall_congr' fun hv => ?_) (forall_congr' fun v => forall_congr' fun hv => ?_)
  · have hsdk : (some row).bind CliRow.sdkTag = some (withV v) := hrow.1 v hv
    simp only [mergedCli, hsdk, coalesce_eq_iff]
  · have hdevnet : (some row).bind CliRow.devnetTag = some v := hrow.2 v hv
    simp only [mergedCli, hdevnet, coalesce_eq_iff]

theorem carries_read_iff : p.Carries (mergedCli p.read.sdkTag p.read.devnetTag none) ↔ p.ReadsNamed := by
  have hnone : ∀ o : Option String, coalesce o none = o := fun o => Option.or_none
  simp only [Pairing.Carries, Pairing.ReadsNamed, mergedCli, Option.bind_none, hnone]

theorem mergedCli_mergedCli (sdkTag devnetTag : Option String) (old : Option CliRow) :
    mergedCli sdkTag devnetTag (some (mergedCli sdkTag devnetTag old)) = mergedCli sdkTag devnetTag old := by
  simp [mergedCli, coalesce_coalesce]

theorem linkedView_scanned_iff (v : View) : p.LinkedView (p.detected true v) ↔ p.Canonical := by
  simp only [Pairing.LinkedView, detected_link, Option.some.injEq]
  exact ⟨And.left, fun hcanonical => ⟨hcanonical, _, detected_cli p v hcanonical, carries_named v.cli⟩⟩

theorem linkedView_scanned_stored_iff (v : View) :
    p.LinkedView (p.stored (p.detected true v)) ↔ p.Canonical ∧ p.ReadsNoOther := by
  have hlink : (p.stored (p.detected true v)).link = some (some (withV (lstripV p.cli.tagName))) := by
    rw [stored_link, detected_link]
    exact ite_self _
  simp only [Pairing.LinkedView, hlink, stored_cli, Option.some.injEq, exists_eq_left']
  refine and_congr_right fun hcanonical => ?_
  rw [detected_cli p v hcanonical]
  exact carries_again_iff (carries_named v.cli)

theorem detected_failed {v : View} (hlink : v.link = none) : (p.detected false v).link = some none := by
  simp [Pairing.detected, hlink]

theorem not_linkedView_failed {v : View} (hlink : v.link = none) : ¬ p.LinkedView (p.detected false v) := by
  rintro ⟨h, -⟩
  rw [detected_failed hlink] at h
  cases h

theorem linkedView_failed_stored_iff {v : View} (hlink : v.link = none)
    (hmerged : mergedCli p.read.sdkTag p.read.devnetTag v.cli = mergedCli p.read.sdkTag p.read.devnetTag none) :
    p.LinkedView (p.stored (p.detected false v)) ↔ p.read.nodeTag = some p.node.tagName ∧ p.ReadsNamed := by
  have hcli : (p.detected false v).cli = v.cli := rfl
  simp only [Pairing.LinkedView, stored_cli, hcli, hmerged, Option.some.injEq, exists_eq_left', carries_read_iff,
    stored_link, detected_failed hlink]
  refine and_congr_left' ?_
  split
  next hread => exact iff_of_true rfl hread
  next hread => exact iff_of_false (by simp) hread

/-- The node and its CLI are linked in the end: after an answered scan, if the tag of the CLI is the one
that the scan writes and no handling of the CLI that comes after the node reads something else in its text;
after a failed one, if a handling of the CLI comes after the node and reads in the text what it names. -/
theorem toolchain_linked_iff (p : Pairing ch) {db : Db} {pre post : List Act} {scanned : Bool}
    (hnode : db .release p.node.tagName = none) (hcli : db .cli p.cli.tagName = none)
    (hbeside : ∀ a ∈ pre ++ post, p.Beside a)
    (h : exec (step ch p.page) ⟨db, []⟩ (pre ++ .processRelease p.node scanned :: post) = some t) :
    p.Linked t.db ↔
      if scanned then p.Canonical ∧ (.processCli p.cli ∈ post → p.ReadsNoOther)
      else .processCli p.cli ∈ post ∧ p.read.nodeTag = some p.node.tagName ∧ p.ReadsNamed := by
  have hpage : p.FromPage ⟨db, []⟩ := fun rel hrel => absurd hrel List.not_mem_nil
  have hview := view_detection hpage hbeside h
  have hstart : p.view db = ⟨none, none⟩ := View.ext (congrArg (Option.map ReleaseRow.cliTag) hnode) hcli
  simp only [hstart] at hview
  generalize hbefore : (if .processCli p.cli ∈ pre then p.stored ⟨none, none⟩ else ⟨none, none⟩ : View) = before at hview
  have hlink : before.link = none := by
    subst hbefore
    split
    next => simp [stored_link]
    next => rfl
  have hmerged : mergedCli p.read.sdkTag p.read.devnetTag before.cli = mergedCli p.read.sdkTag p.read.devnetTag none := by
    subst hbefore
    split
    next => rw [stored_cli, mergedCli_mergedCli]
    next => rfl
  rw [linked_iff_view, hview]
  by_cases hlate : .processCli p.cli ∈ post
  · rw [if_pos hlate]
    cases scanned with
    | true => simp only [if_true, hlate, true_implies, linkedView_scanned_stored_iff]
    | false => simp only [Bool.false_eq_true, if_false, hlate, true_and, linkedView_failed_stored_iff hlink hmerged]
  · rw [if_neg hlate]
    cases scanned with
    | true => simp only [if_true, hlate, false_implies, and_true, linkedView_scanned_iff]
    | false => simp only [Bool.false_eq_true, if_false, hlate, false_and, not_linkedView_failed hlink]

end Runs

def node12 : Release := ⟨"v2.0.0-alpha.12", none, by decide⟩

def cli35 : Release where
  tagName := "v2.0.0-alpha.35"
  body := some "bump rollups-node to v2.0.0-alpha.12, @cartesi/sdk@0.12.0-alpha.40, @cartesi/devnet@2.0.0-alpha.9"
  named := by decide

theorem node12_number : leadingNumber .ascii node12.tagName = some 2 := by
  simp only [leadingNumber, parseInt, strip, lstripV, String.toList_ofList]
  decide +kernel

theorem cli35_number : leadingNumber .ascii cli35.tagName = some 2 := by
  simp only [leadingNumber, parseInt, strip, lstripV, String.toList_ofList]
  decide +kernel

/-- A page with the one CLI release, which names the node. -/
def alpha12 : Pairing .ascii where
  page := [cli35]
  node := node12
  cli := cli35
  major := by simp [nodeMajorVersion, node12_number]
  unlisted := by decide +kernel
  mem := List.mem_cons_self
  isCli := by simp [isCliRelease, cli35_number]
  names := by decide +kernel
  only := fun _ hrel _ => List.mem_singleton.mp hrel
  distinct := fun _ hrel _ => List.mem_singleton.mp hrel

/-- The node is detected first and its scan is answered. -/
theorem toolchain_linked_iff_alpha12 : ∃ t, exec (step .ascii alpha12.page) ⟨emptyDb, []⟩
      ([] ++ .processRelease alpha12.node true :: [.checkCli cli35]) = some t ∧
    (alpha12.Linked t.db ↔ if true then alpha12.Canonical ∧ (.processCli alpha12.cli ∈ [Act.checkCli cli35] →
        alpha12.ReadsNoOther)
      else .processCli alpha12.cli ∈ [Act.checkCli cli35] ∧ alpha12.read.nodeTag = some alpha12.node.tagName ∧
        alpha12.ReadsNamed) := by
  have hrun : (exec (step .ascii alpha12.page) ⟨emptyDb, []⟩
      ([] ++ .processRelease alpha12.node true :: [.checkCli cli35])).isSome = true := by decide +kernel
  obtain ⟨t, ht⟩ := Option.isSome_iff_exists.mp hrun
  refine ⟨t, ht, toolchain_linked_iff alpha12 rfl rfl ?_ ht⟩
  intro a ha
  rw [List.nil_append, List.mem_singleton] at ha
  rw [ha]
  trivial

/-- The CLI is detected first and the scan for the node fails. -/
def cliFirst : List Act := [.checkCli cli35, .processCli cli35, .processRelease node12 false]

/-- The node stays without its CLI, whatever is polled afterwards. -/
theorem cli_first_never_linked : ∃ w, exec (step .ascii alpha12.page) ⟨emptyDb, []⟩ cliFirst = some w ∧
    ∀ as t, (∀ a ∈ as, alpha12.Beside a) → exec (step .ascii alpha12.page) w as = some t → ¬ alpha12.Linked t.db := by
  have hrun : (exec (step .ascii alpha12.page) ⟨emptyDb, []⟩ cliFirst).map Watcher.pending = some [] := by
    decide +kernel
  obtain ⟨w, hw, hpending⟩ := Option.map_eq_some_iff.mp hrun
  have hempty : alpha12.FromPage ⟨emptyDb, []⟩ := fun rel hrel => absurd hrel List.not_mem_nil
  have hbeside : ∀ a ∈ [.checkCli cli35, .processCli cli35] ++ ([] : List Act), alpha12.Beside a := by
    simp [Pairing.Beside]
  have hview : alpha12.view w.db = alpha12.detected false (alpha12.stored ⟨none, none⟩) := by
    have hstored : Act.processCli alpha12.cli ∈ [.checkCli cli35, .processCli cli35] :=
      List.mem_cons_of_mem _ List.mem_cons_self
    refine (view_detection hempty hbeside hw).trans ?_
    rw [if_neg List.not_mem_nil, if_pos hstored]
    rfl
  have hpage : alpha12.FromPage w := by
    intro rel hrel
    rw [hpending] at hrel
    cases hrel
  have hsettled : alpha12.Settled w := by
    have hcli : w.db .cli alpha12.cli.tagName = (alpha12.view w.db).cli := rfl
    refine ⟨by rw [hcli, hview]; rfl, ?_⟩
    rw [hpending]
    exact List.not_mem_nil
  have htag : strip .ascii alpha12.cli.tagName = alpha12.cli.tagName := by decide +kernel
  have hlink : ¬ alpha12.Linked w.db := by
    have hnone : (alpha12.stored ⟨none, none⟩).link = none := by simp [stored_link]
    rw [linked_iff_view, hview]
    exact not_linkedView_failed hnone
  exact ⟨w, hw, fun as t has h => unlinked_of_settled htag hpage has hsettled hlink h⟩

end ReleaseValidation.Catalog.ToolchainLinks
