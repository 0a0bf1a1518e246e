import Mathlib.Data.List.DropRight
import ReleaseValidation.Catalog.ToolchainPatch

/-! # What a toolchain update is answered with

`update_toolchain` reads the release again through the join and answers with what it finds.
A version that is given is found there if the row that it belongs to is one that the update
writes: the SDK and the devnet need a CLI, the contracts a devnet that the CLI comes to have.
-/
namespace ReleaseValidation.Catalog
open Runs References Schema

/-- The versions of a `ReleaseEntry`. -/
structure ToolchainVersions where
  cliVersion : Option String
  sdkVersion : Option String
  devnetVersion : Option String
  contractsVersion : Option String
  deriving DecidableEq, Repr

/-- The query at the end of `update_toolchain`, with `LTRIM(…, 'v')` around two of the tags. -/
def readBack (db : Db) (tag : String) : Option ToolchainVersions :=
  (lookup db tag).map fun row =>
    { cliVersion := row.cliTag.map lstripV
      sdkVersion := row.sdkTag.map lstripV
      devnetVersion := row.devnetTag
      contractsVersion := row.contractsTag }

/-- A version that is given, and not of v's only, is read up to its leading v's. -/
def Returned (given read : Option String) : Prop :=
  ∀ v, given = some v → lstripV v ≠ "" → read.map lstripV = some (lstripV v)

structure ToolchainUpdate.ReturnedBy (payload : ToolchainUpdate) (r : ToolchainVersions) : Prop where
  cli : Returned payload.cliVersion r.cliVersion
  sdk : Returned payload.sdkVersion r.sdkVersion
  devnet : Returned payload.devnetVersion r.devnetVersion
  contracts : Returned payload.contractsVersion r.contractsVersion

/-- The row of the CLI that the tags have, before the update. -/
def Tags.cliRow (db : Db) (t : Tags) : Option CliRow := t.cli.bind (db .cli)

/-- The devnet that this CLI has after the update. -/
def Tags.devnetAfter (db : Db) (t : Tags) : Option String :=
  if (present t.cli).isSome then coalesce t.devnet ((t.cliRow db).bind CliRow.devnetTag)
  else (t.cliRow db).bind CliRow.devnetTag

/-- Each version that is given is written to the row that it is read from, or is there already. -/
structure Tags.Placed (db : Db) (payload : ToolchainUpdate) (t : Tags) : Prop where
  sdk : (present t.cli).isSome = true ∨ Returned payload.sdkVersion ((t.cliRow db).bind CliRow.sdkTag)
  devnet : (present t.cli).isSome = true ∨ Returned payload.devnetVersion ((t.cliRow db).bind CliRow.devnetTag)
  contracts : (present t.devnet).isSome = true ∧ t.devnetAfter db = t.devnet ∨
    Returned payload.contractsVersion (((t.devnetAfter db).bind (db .devnet)).bind DevnetRow.contractsTag)

theorem lstripV_idem (s : String) : lstripV (lstripV s) = lstripV s := by
  simp only [lstripV, String.toList_ofList, List.dropWhile_idempotent (· == 'v') s.toList]

theorem lstripV_withV (s : String) : lstripV (withV s) = lstripV s := by
  have hlist : (withV s).toList = 'v' :: s.toList := by simp [withV]
  simp only [lstripV, hlist]
  rfl

/-- A tag that is given is settled as it is up to its leading v's. -/
theorem overridden_given {v : String} (addPrefix : Bool) (current : Option String) (h : lstripV v ≠ "") :
    ∃ x, overridden (some v) addPrefix current = some x ∧ x ≠ "" ∧ lstripV x = lstripV v := by
  have hne : v ≠ "" := by
    rintro rfl
    exact h rfl
  simp only [overridden, vtag, if_neg hne, Option.some.injEq, exists_eq_left']
  cases addPrefix with
  | false => exact ⟨h, lstripV_idem v⟩
  | true => exact ⟨withV_ne_empty _, (lstripV_withV _).trans (lstripV_idem v)⟩

theorem returned_coalesce (given : Option String) (addPrefix : Bool) (current old : Option String) :
    Returned given (coalesce (overridden given addPrefix current) old) := by
  rintro v rfl h
  obtain ⟨x, hx, -, hstrip⟩ := overridden_given addPrefix current h
  rw [hx, coalesce, Option.some_or, Option.map_some, hstrip]

theorem returned_map_lstripV {given read : Option String} :
    Returned given (read.map lstripV) ↔ Returned given read := by
  have hidem : (read.map lstripV).map lstripV = read.map lstripV := by
    rw [Option.map_map]
    exact Option.map_congr fun x _ => lstripV_idem x
  simp only [Returned, hidem]

section ReadBack
variable {db db' : Db} {tag : String} {payload : ToolchainUpdate} {t : Tags}

/-- The row of the CLI after the update. -/
theorem cliRow_after (h : exec Write.run db (t.statements tag) = some db') : t.cli.bind (db' .cli) =
    if (present t.cli).isSome then some (mergedCli t.sdk t.devnet (t.cliRow db)) else t.cliRow db := by
  cases hcli : t.cli with
  | none => simp [Tags.cliRow, present, hcli]
  | some k =>
    have hrow := Tags.statements_cli h k
    simp only [Tags.cliRow, hcli, Option.bind_some, hrow]
    by_cases hk : k = ""
    · subst hk
      simp [present]
    · have hp : present (some k) = some k := Tags.present_eq_some.mpr ⟨rfl, hk⟩
      simp [hp]

theorem devnetRow_after (h : exec Write.run db (t.statements tag) = some db') (o : Option String) :
    o.bind (db' .devnet) = if (present t.devnet).isSome = true ∧ o = t.devnet then
      some (Tags.mergedDevnet t.contracts (o.bind (db .devnet))) else o.bind (db .devnet) := by
  cases o with
  | none =>
    rw [if_neg]
    · rfl
    · rintro ⟨hsome, hnone⟩
      rw [← hnone] at hsome
      cases hsome
  | some k =>
    simp only [Option.bind_some, Tags.statements_devnet h k]
    refine if_congr ?_ rfl rfl
    rw [Tags.present_eq_some]
    constructor
    · rintro ⟨hk, hne⟩
      rw [Tags.present_eq_some.mpr ⟨hk, hne⟩, hk]
      exact ⟨rfl, rfl⟩
    · rintro ⟨hsome, hk⟩
      obtain ⟨x, hx⟩ := Option.isSome_iff_exists.mp hsome
      obtain ⟨hx, hne⟩ := Tags.present_eq_some.mp hx
      cases hk.trans hx
      exact ⟨hx, hne⟩

/-- What is read after the update, by the rows before it. -/
theorem readBack_after {rc : ReleaseRow} (hrc : db .release tag = some rc)
    (h : exec Write.run db (t.statements tag) = some db') : ∃ c : Option CliRow, ∃ d : Option DevnetRow,
      readBack db' tag = some ⟨(c.bind fun _ => t.cli).map lstripV, (c.bind CliRow.sdkTag).map lstripV,
        t.devnetAfter db, d.bind DevnetRow.contractsTag⟩ ∧
      c = (if (present t.cli).isSome then some (mergedCli t.sdk t.devnet (t.cliRow db)) else t.cliRow db) ∧
      d = if (present t.devnet).isSome = true ∧ t.devnetAfter db = t.devnet then
        some (Tags.mergedDevnet t.contracts ((t.devnetAfter db).bind (db .devnet)))
        else (t.devnetAfter db).bind (db .devnet) := by
  have hrelease := Tags.statements_release h tag
  rw [if_pos rfl, hrc, Option.map_some] at hrelease
  have hdevnet : (t.cli.bind (db' .cli)).bind CliRow.devnetTag = t.devnetAfter db := by
    rw [cliRow_after h, Tags.devnetAfter]
    split
    next => rfl
    next => rfl
  refine ⟨_, _, ?_, cliRow_after h, devnetRow_after h (t.devnetAfter db)⟩
  simp only [readBack, lookup, hrelease, Option.map_some, hdevnet]

/-- What is given is read again exactly when each version has a row to be written to. -/
theorem returned_iff_placed (ht : settle db tag payload = some t)
    (h : exec Write.run db (t.statements tag) = some db') :
    (∃ r, readBack db' tag = some r ∧ payload.ReturnedBy r) ↔ t.Placed db payload := by
  obtain ⟨rc, row, hrc, -, hsettled⟩ := settle_eq_some ht
  have hcliTag : t.cli = overridden payload.cliVersion true rc.cliTag := by rw [hsettled]
  have hsdkTag : t.sdk = overridden payload.sdkVersion true row.sdkTag := by rw [hsettled]
  have hdevnetTag : t.devnet = overridden payload.devnetVersion false row.devnetTag := by rw [hsettled]
  have hcontractsTag : t.contracts = overridden payload.contractsVersion true row.contractsTag := by rw [hsettled]
  obtain ⟨c, d, hread, hc, hd⟩ := readBack_after hrc h
  have hcli : Returned payload.cliVersion ((c.bind fun _ => t.cli).map lstripV) := by
    rw [returned_map_lstripV]
    intro v hv hne
    obtain ⟨x, hx, hxne, hstrip⟩ := overridden_given true rc.cliTag hne
    rw [hv, hx] at hcliTag
    have hpresent : present t.cli = some x := Tags.present_eq_some.mpr ⟨hcliTag, hxne⟩
    rw [hc, hpresent, hcliTag]
    exact congrArg some hstrip
  have hsdk : Returned payload.sdkVersion ((c.bind CliRow.sdkTag).map lstripV) ↔
      ((present t.cli).isSome = true ∨ Returned payload.sdkVersion ((t.cliRow db).bind CliRow.sdkTag)) := by
    rw [returned_map_lstripV, hc]
    split
    next hsome =>
      have hwritten : (some (mergedCli t.sdk t.devnet (t.cliRow db))).bind CliRow.sdkTag =
          coalesce t.sdk ((t.cliRow db).bind CliRow.sdkTag) := rfl
      rw [hwritten, hsdkTag]
      exact iff_of_true (returned_coalesce _ _ _ _) (Or.inl hsome)
    next hnone => exact (or_iff_right hnone).symm
  have hdevnet : Returned payload.devnetVersion (t.devnetAfter db) ↔
      ((present t.cli).isSome = true ∨ Returned payload.devnetVersion ((t.cliRow db).bind CliRow.devnetTag)) := by
    rw [Tags.devnetAfter]
    split
    next hsome =>
      rw [hdevnetTag]
      exact iff_of_true (returned_coalesce _ _ _ _) (Or.inl hsome)
    next hnone => exact (or_iff_right hnone).symm
  have hcontracts : Returned payload.contractsVersion (d.bind DevnetRow.contractsTag) ↔
      ((present t.devnet).isSome = true ∧ t.devnetAfter db = t.devnet ∨
        Returned payload.contractsVersion (((t.devnetAfter db).bind (db .devnet)).bind DevnetRow.contractsTag)) := by
    rw [hd]
    split
    next hwrites =>
      have hwritten : (some (Tags.mergedDevnet t.contracts ((t.devnetAfter db).bind (db .devnet)))).bind
          DevnetRow.contractsTag =
            coalesce t.contracts (((t.devnetAfter db).bind (db .devnet)).bind DevnetRow.contractsTag) := rfl
      rw [hwritten, hcontractsTag]
      exact iff_of_true (returned_coalesce _ _ _ _) (Or.inl hwrites)
    next hnone => exact (or_iff_right hnone).symm
  constructor
  · rintro ⟨r, hr, hreturned⟩
    cases hread.symm.trans hr
    exact ⟨hsdk.mp hreturned.sdk, hdevnet.mp hreturned.devnet, hcontracts.mp hreturned.contracts⟩
  · intro hplaced
    exact ⟨_, hread, hcli, hsdk.mpr hplaced.sdk, hdevnet.mpr hplaced.devnet, hcontracts.mpr hplaced.contracts⟩

/-- An update that is accepted is answered with what it was given exactly when it is refused, its release is
not there, or each version has a row to be written to. -/
theorem update_returns_given_iff (db : Db) (tag : String) (payload : ToolchainUpdate) :
    (∀ db', (lookup db tag).isSome = true → transaction db (updateToolchain db tag payload) = some db' →
      ∃ r, readBack db' tag = some r ∧ payload.ReturnedBy r) ↔
      ∀ t, settle db tag payload = some t → t.Refused db ∨ t.Placed db payload := by
  rw [updateToolchain_eq]
  cases ht : settle db tag payload with
  | none =>
    refine iff_of_true (fun db' hfound => ?_) fun t ht => by cases ht
    exfalso
    obtain ⟨row, hrow⟩ := Option.isSome_iff_exists.mp hfound
    obtain ⟨rc, hrc, -⟩ := Option.map_eq_some_iff.mp hrow
    simp only [settle, hrc, hrow] at ht
    cases ht
  | some t =>
    obtain ⟨rc, row, hrc, hrow, hsettled⟩ := settle_eq_some ht
    simp only [hrow, Option.isSome_some, true_implies, Option.map_some, Option.getD_some, Option.some.injEq,
      forall_eq', transaction]
    have hblank : t.cli = some "" → cliOf db tag = some "" := by
      intro hcli
      rw [hsettled] at hcli
      rw [cliOf, hrc]
      by_contra hne
      exact overridden_withV_ne payload.cliVersion hne hcli
    cases h : exec Write.run db (t.statements tag) with
    | none => exact iff_of_true (fun db' h' => by cases h') (Or.inl (Tags.refused_of_eq_none hblank h))
    | some db' =>
      simp only [Option.some.injEq, forall_eq', returned_iff_placed ht h]
      refine ⟨Or.inr, fun hcases => hcases.resolve_left fun hr => ?_⟩
      cases (Tags.eq_none_of_refused hr).symm.trans h

end ReadBack

/-- A release without a CLI is given one that ships with a devnet, and other contracts. -/
def contractsForCli : ToolchainUpdate := ⟨some "2.0.0-alpha.34", none, none, some "3.0.0"⟩

theorem contracts_not_returned : ¬ ∀ db', (lookup seeded "v2.0.0-alpha.10").isSome = true →
    transaction seeded (updateToolchain seeded "v2.0.0-alpha.10" contractsForCli) = some db' →
      ∃ r, readBack db' "v2.0.0-alpha.10" = some r ∧ contractsForCli.ReturnedBy r := by
  intro hreturned
  have hfound : (lookup seeded "v2.0.0-alpha.10").isSome = true := by decide +kernel
  have hread : (transaction seeded (updateToolchain seeded "v2.0.0-alpha.10" contractsForCli)).map
      (fun db' => readBack db' "v2.0.0-alpha.10") =
        some (some ⟨some "2.0.0-alpha.34", some "0.12.0-alpha.39", some "2.2.0", some "v2.2.0"⟩) := by decide +kernel
  obtain ⟨db', hdb', hr⟩ := Option.map_eq_some_iff.mp hread
  obtain ⟨r, hr', hgiven⟩ := hreturned db' hfound hdb'
  cases hr.symm.trans hr'
  have hcontracts := hgiven.contracts "3.0.0" rfl (by decide +kernel)
  have hother : (some "v2.2.0").map lstripV ≠ some (lstripV "3.0.0") := by decide +kernel
  exact hother hcontracts

end ReleaseValidation.Catalog
