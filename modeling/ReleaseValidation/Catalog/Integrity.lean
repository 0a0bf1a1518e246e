import ReleaseValidation.Catalog.Writers

/-! # Parents before children in the version catalog

Each writer inserts the rows its later statements refer to, under the condition that their
tags are truthy. The statements that refer to them test less, so an empty tag that is not
`None` is referred to and not inserted.
-/
namespace ReleaseValidation.Catalog
open Runs References Schema Regexes

/-- Only a node release may have an empty tag. -/
def NotBlank (p : Table × String) : Prop := p.1 = .release ∨ p.2 ≠ ""

theorem present_of_ne {o : Option String} (h : o ≠ some "") : present o = o := by
  cases o with
  | none => rfl
  | some s =>
    have hs : s ≠ "" := fun he => h (by rw [he])
    simp [present, Option.filter, hs]

theorem present_ne (o : Option String) : present o ≠ some "" := by
  intro h
  have hs := (Option.filter_eq_some_iff.mp h).2
  simp at hs

theorem map_withV_ne (o : Option String) : o.map withV ≠ some "" := by
  cases o with
  | none => exact (Option.some_ne_none "").symm
  | some s => exact fun h => withV_ne_empty s (Option.some.inj h)

theorem map_ensureV_ne (o : Option String) : o.map ensureV ≠ some "" := by
  cases o with
  | none => exact (Option.some_ne_none "").symm
  | some s =>
    intro h
    have hs : ensureV s = "" := Option.some.inj h
    unfold ensureV at hs
    split at hs
    next hv =>
      rw [hs] at hv
      cases hv
    next => exact withV_ne_empty s hs

theorem searchBody_version_ne {ch : Characters} {e : Pattern Char} (he : e.group = version ch) (body : String) :
    searchBody e body ≠ some "" := by
  intro h
  have hconsumes : e.group.Consumes := by
    rw [he]
    exact version_consumes ch
  exact searchBody_ne_empty hconsumes h rfl

theorem overridden_withV_ne (given : Option String) {current : Option String} (h : current ≠ some "") :
    overridden given true current ≠ some "" := by
  cases given with
  | none => exact h
  | some v =>
    simp only [overridden, vtag]
    split
    next => exact (Option.some_ne_none "").symm
    next => exact fun h => withV_ne_empty _ (Option.some.inj h)

section Lists
variable {known : List (Table × String)} {rest : List Statement}

/-- A row inserted for a tag that may be absent. -/
theorem optional_first {t : Table} {o : Option String} {f : String → Statement}
    (htarget : ∀ k, ((f k).table, (f k).key) = (t, k)) (ho : o ≠ some "") (hins : ∀ k, (f k).Inserts)
    (huses : ∀ k, (f k).Uses known) (hrest : ParentsFirst NotBlank (ref t o ++ known) rest) :
    ParentsFirst NotBlank known (o.toList.map f ++ rest) := by
  cases o with
  | none => exact hrest
  | some k =>
    have hk : k ≠ "" := fun he => ho (by rw [he])
    refine .insert ?_ (hins k) (huses k) ?_
    · rw [htarget]
      exact Or.inr hk
    · rw [htarget]
      exact hrest

variable {sdkTag contractsTag devnetTag cliTag : Option String}

/-- The rows below the CLI are known, next to one above them. -/
theorem parents_subset (above : List (Table × String)) : ref .sdk sdkTag ++ ref .devnet devnetTag ⊆
    above ++ (ref .devnet devnetTag ++ (ref .contracts contractsTag ++ ref .sdk sdkTag)) := by
  intro p hp
  rcases List.mem_append.mp hp with hp | hp
  · simp [hp]
  · simp [hp]

/-- The four tables are filled in the order of their references. -/
theorem chain_first (hsdk : sdkTag ≠ some "") (hcontracts : contractsTag ≠ some "") (hdevnet : devnetTag ≠ some "")
    (hrest : ParentsFirst NotBlank (ref .cli (present cliTag) ++ (ref .devnet devnetTag ++
      (ref .contracts contractsTag ++ ref .sdk sdkTag))) rest) :
    ParentsFirst NotBlank [] (chain sdkTag contractsTag devnetTag cliTag ++ rest) := by
  simp only [chain, List.append_assoc, present_of_ne hsdk, present_of_ne hcontracts, present_of_ne hdevnet]
  refine optional_first (t := .sdk) (fun _ => rfl) hsdk (fun _ => insertSdk_inserts) (fun _ => insertSdk_uses) ?_
  refine optional_first (t := .contracts) (fun _ => rfl) hcontracts (fun _ => insertContracts_inserts)
    (fun _ => insertContracts_uses.mono (List.nil_subset _)) ?_
  refine optional_first (t := .devnet) (fun _ => rfl) hdevnet (fun _ => upsertDevnet_inserts)
    (fun _ => upsertDevnet_uses.mono (List.subset_append_left _ _)) ?_
  refine optional_first (t := .cli) (fun _ => rfl) (present_ne cliTag) (fun _ => upsertCli_inserts)
    (fun _ => upsertCli_uses.mono (by simp)) ?_
  simpa using hrest

theorem upsertRelease_first {tag : String} {major : ℤ} (h : ref .cli cliTag ⊆ known) :
    ParentsFirst NotBlank known [upsertRelease tag cliTag major] :=
  .update (Or.inl rfl) (upsertRelease_uses.mono h) (.nil _)

end Lists

section Writers
variable (ch : Characters)

theorem presentV_ne (o : Option String) : presentV o ≠ some "" := map_withV_ne _

theorem syncNode_first (resolve : String → Versions) (rel : Release) :
    ParentsFirst NotBlank [] (syncNode ch resolve rel) := by
  simp only [syncNode]
  split
  next => exact .nil []
  next =>
    split
    next =>
      refine chain_first (presentV_ne _) (map_ensureV_ne _) (present_ne _) (upsertRelease_first ?_)
      rw [present_of_ne (presentV_ne _)]
      exact List.subset_append_left _ _
    next => exact upsertRelease_first (List.nil_subset _)

theorem syncCli_first (rel : Release) : ParentsFirst NotBlank [] (syncCli ch rel) := by
  simp only [syncCli]
  split
  next => exact .nil []
  next htag =>
    split
    next => exact .nil []
    next =>
      split
      next => exact .nil []
      next =>
        refine chain_first (map_withV_ne _) (map_ensureV_ne _) (searchBody_version_ne rfl _) ?_
        exact .insert (Or.inr htag) upsertCli_inserts (upsertCli_uses.mono (parents_subset _)) (.nil _)

theorem syncSdk_first (rel : Release) : ParentsFirst NotBlank [] (syncSdk ch rel) := by
  simp only [syncSdk]
  split
  next => exact .nil []
  next htag =>
    split
    next => exact .insert (Or.inr htag) insertSdk_inserts insertSdk_uses (.nil _)
    next => exact .nil []

theorem syncContracts_first (rel : Release) : ParentsFirst NotBlank [] (syncContracts ch rel) := by
  simp only [syncContracts]
  split
  next => exact .nil []
  next htag => exact .insert (Or.inr htag) insertContracts_inserts insertContracts_uses (.nil _)

theorem addRelease_first (resolve : String → Versions) (rawTag : String) (cliVersion : Option String) :
    ParentsFirst NotBlank [] (addRelease ch resolve rawTag cliVersion) := by
  have hnone : (none : Option String) ≠ some "" := (Option.some_ne_none "").symm
  simp only [addRelease]
  split
  next => exact .nil []
  next =>
    split
    next =>
      split
      next =>
        refine chain_first (presentV_ne _) (presentV_ne _) (present_ne _) (upsertRelease_first ?_)
        rw [present_of_ne (presentV_ne _)]
        exact List.subset_append_left _ _
      next cli hcli =>
        refine chain_first hnone hnone hnone (upsertRelease_first ?_)
        rw [present_of_ne fun h => withV_ne_empty _ (Option.some.inj h)]
        exact List.subset_append_left _ _
    next => exact upsertRelease_first (List.nil_subset _)

theorem upsertNodeCatalog_first (versions : Versions) (release : Release) :
    ParentsFirst NotBlank [] (upsertNodeCatalog ch versions release) := by
  refine chain_first (presentV_ne _) (presentV_ne _) (present_ne _) (upsertRelease_first ?_)
  rw [present_of_ne (presentV_ne _)]
  exact List.subset_append_left _ _

/-- What is read in a text is a version. -/
theorem cliTags_ne (release : Release) : (cliTags ch release).sdkTag ≠ some "" ∧
    (cliTags ch release).contractsTag ≠ some "" ∧ (cliTags ch release).devnetTag ≠ some "" ∧
    (cliTags ch release).nodeTag ≠ some "" := by
  simp only [cliTags]
  exact ⟨map_withV_ne _, map_withV_ne _, searchBody_version_ne rfl _, map_withV_ne _⟩

theorem upsertCliChain_first (release : Release) : ParentsFirst NotBlank [] (upsertCliChain ch release) := by
  obtain ⟨hsdk, hcontracts, hdevnet, -⟩ := cliTags_ne ch release
  simp only [upsertCliChain, List.append_assoc]
  refine chain_first hsdk hcontracts hdevnet ?_
  refine .insert (Or.inr release.named) upsertCli_inserts (upsertCli_uses.mono (parents_subset _)) ?_
  cases present (cliTags ch release).nodeTag with
  | none => exact .nil _
  | some node =>
    refine .update (Or.inl rfl) (backfillRelease_uses.mono ?_) (.nil _)
    intro p hp
    rw [List.mem_singleton.mp hp]
    exact List.mem_cons_self

/-- Every writer but the toolchain update executes parents before children on any input. -/
theorem statements_first (db : Db) (a : Act) (h : ∀ tag payload, a ≠ .updateToolchain tag payload) :
    ParentsFirst NotBlank [] (a.statements ch db) := by
  cases a with
  | syncFromGithub resolve releases => exact .flatMap fun rel _ => syncNode_first ch resolve rel
  | syncCliFromGithub releases => exact .flatMap fun rel _ => syncCli_first ch rel
  | syncSdkFromGithub releases => exact .flatMap fun rel _ => syncSdk_first ch rel
  | syncContractsFromGithub releases => exact .flatMap fun rel _ => syncContracts_first ch rel
  | updateToolchain tag payload => exact absurd rfl (h tag payload)
  | addRelease resolve rawTag cliVersion => exact addRelease_first ch resolve rawTag cliVersion
  | upsertNodeCatalog versions release => exact upsertNodeCatalog_first ch versions release
  | upsertCliChain release => exact upsertCliChain_first ch release
  | upsertContractsCatalog release =>
    exact .insert (Or.inr release.named) insertContracts_inserts insertContracts_uses (.nil _)

end Writers

section Toolchain
variable {db : Db} {tag : String} {sdkTag contractsTag devnetTag cliTag : Option String}

/-- The toolchain update executes parents before children when none of its tags is empty. -/
theorem toolchain_first (hcli : cliTag ≠ some "") (hsdk : sdkTag ≠ some "") (hdevnet : devnetTag ≠ some "")
    (hcontracts : contractsTag ≠ some "") :
    ParentsFirst NotBlank [] (toolchainStatements tag cliTag sdkTag devnetTag contractsTag) := by
  simp only [toolchainStatements]
  refine chain_first hsdk hcontracts hdevnet ?_
  rw [present_of_ne hcli, present_of_ne hdevnet, present_of_ne hcontracts]
  refine .update (Or.inl rfl) (setReleaseCli_uses.mono (List.subset_append_left _ _)) (.append ?_ ?_)
  · cases cliTag with
    | none => exact .nil _
    | some cli =>
      exact .update (Or.inr fun he => hcli (congrArg some he)) (updateCli_uses.mono (parents_subset _)) (.nil _)
  · cases devnetTag with
    | none => exact .nil _
    | some devnet =>
      cases contractsTag with
      | none => exact .nil _
      | some contracts =>
        refine .update (Or.inr fun he => hdevnet (congrArg some he)) (setDevnetContracts_uses.mono ?_) (.nil _)
        simp [ref]

/-- An empty devnet tag is not inserted, and the CLI that is to refer to it cannot be written. -/
theorem toolchain_violates {cli : String} (hdb : Within NotBlank db) (hcli : cli ≠ "") (hsdk : sdkTag ≠ some "")
    (hcontracts : contractsTag ≠ some "") :
    transaction db (toolchainStatements tag (some cli) sdkTag (some "") contractsTag) = none := by
  rw [← Option.not_isSome_iff_eq_none, Option.isSome_iff_exists]
  rintro ⟨db', h⟩
  let parents := sdkTag.toList.map insertSdk ++ contractsTag.toList.map insertContracts
  have hsplit : ∃ rest, toolchainStatements tag (some cli) sdkTag (some "") contractsTag =
      parents ++ upsertCli cli sdkTag (some "") :: rest := by
    have hpresent : present (some cli) = some cli := present_of_ne fun he => hcli (Option.some.inj he)
    have hblank : present (some "") = none := rfl
    simp only [toolchainStatements, chain, parents, present_of_ne hsdk, present_of_ne hcontracts, hpresent, hblank,
      Option.toList_none, Option.toList_some, List.map_nil, List.map_cons, List.append_nil, List.append_assoc,
      List.cons_append, List.nil_append]
    exact ⟨_, rfl⟩
  obtain ⟨rest, hsplit⟩ := hsplit
  rw [transaction, hsplit] at h
  obtain ⟨u, hu, h⟩ := exec_append_iff.mp h
  obtain ⟨v, hv, -⟩ := Option.bind_eq_some_iff.mp h
  have hparents : ParentsFirst NotBlank [] (parents ++ []) := by
    simp only [parents, List.append_assoc]
    refine optional_first (t := .sdk) (fun _ => rfl) hsdk (fun _ => insertSdk_inserts) (fun _ => insertSdk_uses) ?_
    exact optional_first (t := .contracts) (fun _ => rfl) hcontracts (fun _ => insertContracts_inserts)
      (fun _ => insertContracts_uses.mono (List.nil_subset _)) (.nil _)
  rw [List.append_nil] at hparents
  have hwithin : Within NotBlank u := exec_within (hparents.stays fun _ hp => absurd hp List.not_mem_nil) hdb hu
  have hblank : ¬ NotBlank (.devnet, "") := by
    rintro (h | h)
    · cases h
    · exact h rfl
  rcases (upsertCli cli sdkTag (some "")).run_cases hv with ⟨hrow, -⟩ | ⟨r, hrow, -, hrefs⟩
  · cases hold : u .cli cli with
    | none =>
      simp only [upsertCli, hold] at hrow
      cases hrow
    | some old =>
      simp only [upsertCli, hold] at hrow
      cases hrow
  · have hmem : (Table.devnet, "") ∈ schema.refs .cli r := by
      cases hold : u .cli cli with
      | none =>
        simp only [upsertCli, hold] at hrow
        cases hrow
        exact List.mem_append_right _ List.mem_cons_self
      | some old =>
        simp only [upsertCli, hold] at hrow
        cases hrow
        exact List.mem_append_right _ List.mem_cons_self
    rcases hrefs _ hmem with hold | hhas
    · exact hblank (hwithin.refs.of_refs? hold)
    · exact hblank (hwithin.keys _ hhas)

/-- Without a CLI an empty devnet tag is not used. -/
theorem toolchainStatements_blank : toolchainStatements tag none sdkTag (some "") contractsTag =
    toolchainStatements tag none sdkTag none contractsTag := by
  have hblank : present (some "") = none := rfl
  have hnone : present none = none := rfl
  simp [toolchainStatements, chain, hblank, hnone]

theorem vtag_eq_blank_iff {v : String} : vtag v false = some "" ↔ v ≠ "" ∧ lstripV v = "" := by
  unfold vtag
  split
  next hv => simp [hv]
  next hv => simp [hv]

/-- What a release is joined with has no empty tags. -/
theorem lookup_named (hdb : Within NotBlank db) {row : Toolchain} (h : lookup db tag = some row) :
    row.sdkTag ≠ some "" ∧ row.devnetTag ≠ some "" ∧ row.contractsTag ≠ some "" := by
  obtain ⟨rc, -, rfl⟩ := Option.map_eq_some_iff.mp h
  have hblank : ∀ t : Table, t ≠ .release → ¬ NotBlank (t, "") := by
    rintro t ht (hr | hne)
    · exact ht hr
    · exact hne rfl
  refine ⟨?_, ?_, ?_⟩
  · intro hsdk
    obtain ⟨c, hc, hsdk⟩ := Option.bind_eq_some_iff.mp hsdk
    obtain ⟨cli, -, hc⟩ := Option.bind_eq_some_iff.mp hc
    exact hblank .sdk (by decide) (hdb.refs .cli cli c hc _ (List.mem_append_left _ (mem_ref.mpr ⟨rfl, hsdk⟩)))
  · intro hdevnet
    obtain ⟨c, hc, hdevnet⟩ := Option.bind_eq_some_iff.mp hdevnet
    obtain ⟨cli, -, hc⟩ := Option.bind_eq_some_iff.mp hc
    exact hblank .devnet (by decide) (hdb.refs .cli cli c hc _ (List.mem_append_right _ (mem_ref.mpr ⟨rfl, hdevnet⟩)))
  · intro hcontracts
    obtain ⟨d, hd, hcontracts⟩ := Option.bind_eq_some_iff.mp hcontracts
    obtain ⟨devnet, -, hd⟩ := Option.bind_eq_some_iff.mp hd
    exact hblank .contracts (by decide) (hdb.refs .devnet devnet d hd _ (mem_ref.mpr ⟨rfl, hcontracts⟩))

end Toolchain

section Runs
variable (ch : Characters) {db : Db}

/-- No statement of the writer violates a reference. -/
def Completes (db : Db) (a : Act) : Prop := ∃ db', transaction db (a.statements ch db) = some db'

/-- A toolchain update whose devnet version is nothing but letters v, of a release that has a CLI
or gets one by the same update. -/
def BlankDevnet (db : Db) : Act → Prop
  | .updateToolchain tag payload => ∃ rc v, db .release tag = some rc ∧ payload.devnetVersion = some v ∧
      v ≠ "" ∧ lstripV v = "" ∧ overridden payload.cliVersion true rc.cliTag ≠ none
  | _ => False

/-- The statements of a writer bring their parents along, unless an empty devnet tag is asked for. -/
theorem first_or_blank (hdb : Within NotBlank db) (a : Act) :
    ¬ BlankDevnet db a ∧ ParentsFirst NotBlank [] (a.statements ch db) ∨
      BlankDevnet db a ∧ transaction db (a.statements ch db) = none := by
  cases a with
  | updateToolchain tag payload =>
    simp only [Act.statements, updateToolchain]
    split
    next rc row hrc hrow =>
      obtain ⟨hsdk, hdevnet, hcontracts⟩ := lookup_named hdb hrow
      have hcli : rc.cliTag ≠ some "" := by
        intro he
        rcases hdb.refs .release tag rc hrc (.cli, "") (mem_ref.mpr ⟨rfl, he⟩) with h | h
        · cases h
        · exact h rfl
      have hcli' := overridden_withV_ne payload.cliVersion hcli
      have hsdk' := overridden_withV_ne payload.sdkVersion hsdk
      have hcontracts' := overridden_withV_ne payload.contractsVersion hcontracts
      by_cases hblank : overridden payload.devnetVersion false row.devnetTag = some ""
      · obtain ⟨v, hv, hblankV⟩ : ∃ v, payload.devnetVersion = some v ∧ vtag v false = some "" := by
          cases hgiven : payload.devnetVersion with
          | none =>
            rw [hgiven] at hblank
            exact absurd hblank hdevnet
          | some v =>
            rw [hgiven] at hblank
            exact ⟨v, rfl, hblank⟩
        obtain ⟨hne, hstrip⟩ := vtag_eq_blank_iff.mp hblankV
        rw [hblank]
        cases hnew : overridden payload.cliVersion true rc.cliTag with
        | none =>
          left
          constructor
          · rintro ⟨rc', v', hrc', -, -, -, hset⟩
            cases hrc.symm.trans hrc'
            exact hset hnew
          · rw [toolchainStatements_blank]
            exact toolchain_first (Option.some_ne_none "").symm hsdk' (Option.some_ne_none "").symm hcontracts'
        | some cli =>
          right
          constructor
          · exact ⟨rc, v, hrc, hv, hne, hstrip, by rw [hnew]; exact Option.some_ne_none cli⟩
          · have hne' : cli ≠ "" := fun he => hcli' (hnew.trans (congrArg some he))
            exact toolchain_violates hdb hne' hsdk' hcontracts'
      · left
        constructor
        · rintro ⟨rc', v, -, hv, hne, hstrip, -⟩
          apply hblank
          rw [hv]
          exact vtag_eq_blank_iff.mpr ⟨hne, hstrip⟩
        · exact toolchain_first hcli' hsdk' hblank hcontracts'
    next hfound =>
      left
      constructor
      · rintro ⟨rc, v, hrc, -⟩
        have hrow : ∃ row, lookup db tag = some row := by
          unfold lookup
          rw [hrc]
          exact ⟨_, rfl⟩
        obtain ⟨row, hrow⟩ := hrow
        exact hfound rc row hrc hrow
      · exact .nil []
  | _ => exact Or.inl ⟨id, statements_first ch db _ (by intros; intro h; cases h)⟩

theorem completes_iff (hdb : Within NotBlank db) (a : Act) : Completes ch db a ↔ ¬ BlankDevnet db a := by
  rcases first_or_blank ch hdb a with ⟨hblank, hfirst⟩ | ⟨hblank, hnone⟩
  · exact iff_of_true (hfirst.completes fun _ hp => absurd hp List.not_mem_nil) hblank
  · refine iff_of_false ?_ (not_not_intro hblank)
    rintro ⟨db', h⟩
    cases hnone.symm.trans h

theorem step_within (hdb : Within NotBlank db) {db' : Db} {a : Act} (h : step ch db a = some db') :
    Within NotBlank db' := by
  cases Option.some.inj h
  rcases first_or_blank ch hdb a with ⟨-, hfirst⟩ | ⟨-, hnone⟩
  · have hrun : Completes ch db a := hfirst.completes fun _ hp => absurd hp List.not_mem_nil
    obtain ⟨u, hu⟩ := hrun
    rw [hu]
    exact exec_within (hfirst.stays fun _ hp => absurd hp List.not_mem_nil) hdb hu
  · rw [hnone]
    exact hdb

/-- No writer ever violates a reference, from any catalog without empty tags, exactly when no toolchain
update asks for a devnet version that is empty without its letters v. -/
theorem writers_complete_iff (h0 : Within NotBlank db) (as : List Act) :
    Always (step ch) (fun u a _ => Completes ch u a) db as ↔ Always (step ch) (fun u a _ => ¬ BlankDevnet u a) db as := by
  refine always_iff_of_invariant (I := Within NotBlank) ?_ h0
  intro u a t hu hstep
  exact ⟨completes_iff ch hu a, fun _ => step_within ch hu hstep⟩

theorem transaction_consistent {ws : List Statement} {db' : Db} (hdb : Consistent db)
    (h : transaction db ws = some db') : Consistent db' :=
  exec_invariant (I := fun u : Db => Consistent u) (fun _ _ _ hx hy => Schema.Write.run_consistent hx hy) hdb h

/-- References stay intact whatever the writers are asked for. -/
theorem reachable_consistent (h0 : Consistent db) {as : List Act} {db' : Db} (h : exec (step ch) db as = some db') :
    Consistent db' := by
  refine exec_invariant ?_ h0 h
  intro u a t hu hstep
  cases Option.some.inj hstep
  cases hrun : transaction u (a.statements ch u) with
  | none => exact hu
  | some v => exact transaction_consistent hu hrun

end Runs

/-- The rows of `init.sql`, inserted into empty tables. -/
def seed : List Statement :=
  ["v2.2.0", "v2.1.1", "v2.0.1"].map insertContracts ++
    ["v0.12.0-alpha.39", "v0.12.0-alpha.27", "v0.12.0-alpha.23", "v0.12.0-alpha.22"].map insertSdk ++
    [("2.2.0", "v2.2.0"), ("2.1.1", "v2.1.1"), ("2.0.1", "v2.0.1")].map (fun p => upsertDevnet p.1 (some p.2)) ++
    [("v2.0.0-alpha.34", "v0.12.0-alpha.39", "2.2.0"), ("v2.0.0-alpha.22", "v0.12.0-alpha.27", "2.1.1"),
      ("v2.0.0-alpha.19", "v0.12.0-alpha.23", "2.0.1"), ("v2.0.0-alpha.13", "v0.12.0-alpha.22", "2.0.1")].map
        (fun p => upsertCli p.1 (some p.2.1) (some p.2.2)) ++
    [("v1.5.1", none, 1), ("v2.0.0-alpha.11", some "v2.0.0-alpha.34", 2), ("v2.0.0-alpha.10", none, 2),
      ("v2.0.0-alpha.9", some "v2.0.0-alpha.22", 2), ("v2.0.0-alpha.8", some "v2.0.0-alpha.19", 2),
      ("v2.0.0-alpha.7", some "v2.0.0-alpha.13", 2)].map (fun p => upsertRelease p.1 p.2.1 p.2.2)

def emptyDb : Db := fun _ _ => none

def seeded : Db := (transaction emptyDb seed).getD emptyDb

theorem seed_completes : transaction emptyDb seed = some seeded := by
  have hsome : (transaction emptyDb seed).isSome = true := by decide +kernel
  obtain ⟨db, hdb⟩ := Option.isSome_iff_exists.mp hsome
  rw [seeded, hdb]
  rfl

instance (p : Table × String) : Decidable (NotBlank p) := inferInstanceAs (Decidable (_ ∨ _))

theorem seed_stays : ∀ w ∈ seed, w.Stays NotBlank := by
  simp only [seed, List.forall_mem_append, List.forall_mem_map]
  refine ⟨⟨⟨⟨?_, ?_⟩, ?_⟩, ?_⟩, ?_⟩
  · have hkeys : ∀ tag ∈ ["v2.2.0", "v2.1.1", "v2.0.1"], NotBlank (.contracts, tag) := by decide
    exact fun tag htag => ⟨hkeys tag htag, [], insertContracts_uses, fun _ hp => absurd hp List.not_mem_nil⟩
  · have hkeys : ∀ tag ∈ ["v0.12.0-alpha.39", "v0.12.0-alpha.27", "v0.12.0-alpha.23", "v0.12.0-alpha.22"],
        NotBlank (.sdk, tag) := by decide
    exact fun tag htag => ⟨hkeys tag htag, [], insertSdk_uses, fun _ hp => absurd hp List.not_mem_nil⟩
  · have htags : ∀ d ∈ [("2.2.0", "v2.2.0"), ("2.1.1", "v2.1.1"), ("2.0.1", "v2.0.1")],
        NotBlank (.devnet, d.1) ∧ ∀ p ∈ ref .contracts (some d.2), NotBlank p := by decide
    exact fun d hd => ⟨(htags d hd).1, _, upsertDevnet_uses, (htags d hd).2⟩
  · have htags : ∀ c ∈ [("v2.0.0-alpha.34", "v0.12.0-alpha.39", "2.2.0"),
        ("v2.0.0-alpha.22", "v0.12.0-alpha.27", "2.1.1"), ("v2.0.0-alpha.19", "v0.12.0-alpha.23", "2.0.1"),
        ("v2.0.0-alpha.13", "v0.12.0-alpha.22", "2.0.1")],
        NotBlank (.cli, c.1) ∧ ∀ p ∈ ref .sdk (some c.2.1) ++ ref .devnet (some c.2.2), NotBlank p := by decide
    exact fun c hc => ⟨(htags c hc).1, _, upsertCli_uses, (htags c hc).2⟩
  · have htags : ∀ r ∈ [("v1.5.1", none, (1 : ℤ)), ("v2.0.0-alpha.11", some "v2.0.0-alpha.34", 2),
        ("v2.0.0-alpha.10", none, 2), ("v2.0.0-alpha.9", some "v2.0.0-alpha.22", 2),
        ("v2.0.0-alpha.8", some "v2.0.0-alpha.19", 2), ("v2.0.0-alpha.7", some "v2.0.0-alpha.13", 2)],
        ∀ p ∈ ref .cli r.2.1, NotBlank p := by decide
    exact fun r hr => ⟨Or.inl rfl, _, upsertRelease_uses, htags r hr⟩

theorem seeded_within : Within NotBlank seeded := by
  have hempty : Within NotBlank emptyDb := by
    refine ⟨?_, ?_⟩
    · intro p hp
      cases hp
    · intro t k r hr
      cases hr
  exact exec_within seed_stays hempty seed_completes

theorem seeded_consistent : Consistent seeded := by
  have hempty : Consistent emptyDb := by
    intro t k r hr
    cases hr
  exact transaction_consistent hempty seed_completes

/-- The update names a devnet by a lone letter v. -/
def loneV : Act := .updateToolchain "v2.0.0-alpha.11" ⟨none, none, some "v", none⟩

theorem writers_complete_iff_seeded :
    Always (step .ascii) (fun u a _ => Completes .ascii u a) seeded [loneV] ↔
      Always (step .ascii) (fun u a _ => ¬ BlankDevnet u a) seeded [loneV] :=
  writers_complete_iff .ascii seeded_within [loneV]

theorem lone_v_violates_reference :
    (transaction seeded (loneV.statements .ascii seeded)).isSome = false ∧
      ¬ Always (step .ascii) (fun u a _ => Completes .ascii u a) seeded [loneV] := by
  have hnone : (transaction seeded (loneV.statements .ascii seeded)).isSome = false := by decide +kernel
  refine ⟨hnone, fun h => ?_⟩
  obtain ⟨db', hdb⟩ := (h _ rfl).1
  rw [hdb] at hnone
  cases hnone

end ReleaseValidation.Catalog
