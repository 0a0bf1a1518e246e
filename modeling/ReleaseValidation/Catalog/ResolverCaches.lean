import ReleaseValidation.Catalog.Resolver
import ReleaseValidation.Catalog.Integrity

/-! # The versions that the resolver keeps

The resolver keeps the versions of its confirmed tables and those its scans have found, in one
table for each kind, for as long as the process lives. A lookup of one kind that misses scans the
page and keeps all kinds, also where the table of another kind has a version already.
-/
namespace ReleaseValidation.Catalog.ResolverCaches
open Runs

/-- `KNOWN`, `KNOWN_CLI`, `KNOWN_DEVNET` and `KNOWN_CONTRACTS`. -/
structure Caches where
  sdk : String → Option String
  cli : String → Option String
  devnet : String → Option String
  contracts : String → Option String
  sdk_ne : ∀ ver, sdk ver ≠ some ""
  cli_ne : ∀ ver, cli ver ≠ some ""

/-- `table[ver] = x`, if there is an `x`. -/
def put (table : String → Option String) (ver : String) (x : Option String) : String → Option String :=
  if x.isSome then Function.update table ver x else table

theorem put_self (table : String → Option String) (ver : String) (x : Option String) :
    put table ver x ver = x.or (table ver) := by
  cases x with
  | none => rfl
  | some x => exact Function.update_self ver (some x) table

theorem put_of_ne {table : String → Option String} {ver ver' : String} {x : Option String} (h : ver' ≠ ver) :
    put table ver x ver' = table ver' := by
  cases x with
  | none => rfl
  | some x => exact Function.update_of_ne h (some x) table

theorem put_ne {table : String → Option String} {ver : String} {x : Option String}
    (htable : ∀ ver, table ver ≠ some "") (hx : x ≠ some "") (ver' : String) : put table ver x ver' ≠ some "" := by
  by_cases h : ver' = ver
  · rw [h, put_self]
    cases x with
    | none => exact htable ver
    | some x => exact hx
  · rw [put_of_ne h]
    exact htable ver'

theorem lookup_ne {rows : List (String × String)} (h : ∀ row ∈ rows, row.2 ≠ "") (ver : String) :
    rows.lookup ver ≠ some "" := by
  intro hlookup
  induction rows with
  | nil => cases hlookup
  | cons row rows ih =>
    obtain ⟨k, x⟩ := row
    rw [List.lookup_cons] at hlookup
    split at hlookup
    · exact h (k, x) List.mem_cons_self (Option.some.inj hlookup)
    · exact ih (fun row hrow => h row (List.mem_cons_of_mem _ hrow)) hlookup

/-- The tables when the process starts. -/
def Caches.initial : Caches where
  sdk := fun ver => knownSdk.lookup ver
  cli := fun ver => knownCli.lookup ver
  devnet := fun _ => none
  contracts := fun _ => none
  sdk_ne := lookup_ne (by decide)
  cli_ne := lookup_ne (by decide)

section Scans
variable (ch : Characters)

/-- The first CLI on the page whose text names the node version. -/
def pageCli (nodeVer : String) (rels : List Release) : Option String :=
  rels.findSome? fun rel => if rel.Targets ch nodeVer then present (some (lstripV rel.tagName)) else none

/-- The first SDK of a release on the page whose text names the node version. -/
def pageSdk (nodeVer : String) (rels : List Release) : Option String :=
  rels.findSome? fun rel => if rel.Targets ch nodeVer then present (extractSdkFromBody ch rel.text) else none

theorem or_of_isSome {a : Option String} (h : a.isSome = true) (b : Option String) : a.or b = a := by
  cases a with
  | none => cases h
  | some a => rfl

/-- The scan stops early only when it has found both. -/
theorem scan_eq (nodeVer : String) (found : Versions) (rels : List Release) :
    (scan ch nodeVer found rels).sdk = found.sdk.or (pageSdk ch nodeVer rels) ∧
      (scan ch nodeVer found rels).cli = found.cli.or (pageCli ch nodeVer rels) := by
  induction rels generalizing found with
  | nil => exact ⟨Option.or_none.symm, Option.or_none.symm⟩
  | cons rel rels ih =>
    have hcons : ∀ (p : Release → Option String), (rel :: rels).findSome? p = (p rel).or (rels.findSome? p) := by
      intro p
      rw [List.findSome?_cons]
      cases p rel <;> rfl
    simp only [scan, pageSdk, pageCli, hcons]
    split
    next htargets =>
      rw [← Option.or_assoc, ← Option.or_assoc]
      split
      next hfound =>
        obtain ⟨hcli, hsdk⟩ := Bool.and_eq_true_iff.mp hfound
        exact ⟨(or_of_isSome hsdk _).symm, (or_of_isSome hcli _).symm⟩
      next => exact ih (collect ch found rel)
    next => exact ih found

theorem scanned_sdk (rels : List Release) (nodeVer : String) :
    (scanCliReleases ch (some rels) nodeVer).sdk = pageSdk ch nodeVer rels := by
  change (scan ch nodeVer .unknown rels).sdk = _
  rw [(scan_eq ch nodeVer .unknown rels).1]
  rfl

theorem scanned_cli (rels : List Release) (nodeVer : String) :
    (scanCliReleases ch (some rels) nodeVer).cli = pageCli ch nodeVer rels := by
  change (scan ch nodeVer .unknown rels).cli = _
  rw [(scan_eq ch nodeVer .unknown rels).2]
  rfl

theorem findSome_present_ne (p : Release → Option String) (hp : ∀ rel, p rel ≠ some "") (rels : List Release) :
    rels.findSome? p ≠ some "" := by
  intro h
  obtain ⟨rel, -, hrel⟩ := List.exists_of_findSome?_eq_some h
  exact hp rel hrel

theorem scanCliReleases_ne (page : Option (List Release)) (nodeVer : String) :
    (scanCliReleases ch page nodeVer).sdk ≠ some "" ∧ (scanCliReleases ch page nodeVer).cli ≠ some "" := by
  have hite : ∀ (c : Prop) [Decidable c] (o : Option String), (if c then present o else none) ≠ some "" := by
    intro c _ o
    split
    next => exact present_ne o
    next => exact (Option.some_ne_none "").symm
  cases page with
  | none => exact ⟨(Option.some_ne_none "").symm, (Option.some_ne_none "").symm⟩
  | some rels =>
    rw [scanned_sdk, scanned_cli]
    exact ⟨findSome_present_ne _ (fun _ => hite _ _) rels, findSome_present_ne _ (fun _ => hite _ _) rels⟩

/-- `_scan_cli_releases` keeps what it has found, if an SDK or a CLI is among it. -/
def Caches.scanned (s : Caches) (page : Option (List Release)) (nodeVer : String) : Caches :=
  let found := scanCliReleases ch page nodeVer
  if found.cli.isSome || found.sdk.isSome then
    { sdk := put s.sdk nodeVer found.sdk
      cli := put s.cli nodeVer found.cli
      devnet := put s.devnet nodeVer found.devnet
      contracts := put s.contracts nodeVer found.contracts
      sdk_ne := put_ne s.sdk_ne (scanCliReleases_ne ch page nodeVer).1
      cli_ne := put_ne s.cli_ne (scanCliReleases_ne ch page nodeVer).2 }
  else s

/-- `resolve_sdk_version`. -/
def resolveSdkVersion (s : Caches) (page : Option (List Release)) (nodeTag : String) : Option String × Caches :=
  let nodeVer := lstripV nodeTag
  match s.sdk nodeVer with
  | some sdk => (some sdk, s)
  | none => ((scanCliReleases ch page nodeVer).sdk, s.scanned ch page nodeVer)

/-- `resolve_cli_version`. -/
def resolveCliVersion (s : Caches) (page : Option (List Release)) (nodeTag : String) : Option String × Caches :=
  let nodeVer := lstripV nodeTag
  match s.cli nodeVer with
  | some cli => (some cli, s)
  | none => ((scanCliReleases ch page nodeVer).cli, s.scanned ch page nodeVer)

/-- `resolve_versions`: the SDK and the CLI. -/
def resolveVersions (s : Caches) (page : Option (List Release)) (nodeTag : String) :
    (Option String × Option String) × Caches :=
  let nodeVer := lstripV nodeTag
  match s.sdk nodeVer, s.cli nodeVer with
  | some sdk, some cli => ((some sdk, some cli), s)
  | sdk, cli =>
    let scanned := scanCliReleases ch page nodeVer
    ((sdk.or scanned.sdk, cli.or scanned.cli), s.scanned ch page nodeVer)

/-- `resolve_all_versions`. -/
def resolveAll (s : Caches) (page : Option (List Release)) (nodeTag : String) : Versions × Caches :=
  let nodeVer := lstripV nodeTag
  match s.sdk nodeVer, s.cli nodeVer with
  | some sdk, some cli => (⟨some sdk, some cli, s.devnet nodeVer, s.contracts nodeVer⟩, s)
  | sdk, cli =>
    let scanned := scanCliReleases ch page nodeVer
    (⟨sdk.or scanned.sdk, cli.or scanned.cli, (s.devnet nodeVer).or scanned.devnet,
      (s.contracts nodeVer).or scanned.contracts⟩, s.scanned ch page nodeVer)

end Scans

/-- The kinds of version that the lookups return. -/
inductive Kind
  | sdk | cli
  deriving DecidableEq

inductive Lookup
  | sdk | cli | versions | all
  deriving DecidableEq

/-- A call of a lookup, and GitHub's answer to it, should it ask: a page or a failure. -/
structure Call where
  lookup : Lookup
  nodeTag : String
  page : Option (List Release)

def Call.nodeVer (c : Call) : String := lstripV c.nodeTag

def Call.Asks (c : Call) : Kind → Prop
  | .sdk => c.lookup ≠ .cli
  | .cli => c.lookup ≠ .sdk

def Caches.table (s : Caches) : Kind → String → Option String
  | .sdk => s.sdk
  | .cli => s.cli

section Calls
variable (ch : Characters)

/-- The version of a kind that a call returns. -/
def returned (s : Caches) (c : Call) : Kind → Option String
  | .sdk =>
    match c.lookup with
    | .sdk => (resolveSdkVersion ch s c.page c.nodeTag).1
    | .cli => none
    | .versions => (resolveVersions ch s c.page c.nodeTag).1.1
    | .all => (resolveAll ch s c.page c.nodeTag).1.sdk
  | .cli =>
    match c.lookup with
    | .sdk => none
    | .cli => (resolveCliVersion ch s c.page c.nodeTag).1
    | .versions => (resolveVersions ch s c.page c.nodeTag).1.2
    | .all => (resolveAll ch s c.page c.nodeTag).1.cli

def step (s : Caches) (c : Call) : Option Caches :=
  match c.lookup with
  | .sdk => some (resolveSdkVersion ch s c.page c.nodeTag).2
  | .cli => some (resolveCliVersion ch s c.page c.nodeTag).2
  | .versions => some (resolveVersions ch s c.page c.nodeTag).2
  | .all => some (resolveAll ch s c.page c.nodeTag).2

/-- The version of a kind that the call's page names for the node version. -/
def Call.named (c : Call) : Kind → Option String
  | .sdk => c.page.bind (pageSdk ch c.nodeVer)
  | .cli => c.page.bind (pageCli ch c.nodeVer)

/-- The call asks for a version that is not kept, and so reads the page. -/
def Misses (s : Caches) (c : Call) : Prop := ∃ k, c.Asks k ∧ s.table k c.nodeVer = none

/-- A page that is read names no version in place of one that is kept. -/
def Repeats (s : Caches) (c : Call) : Prop :=
  Misses s c → ∀ k x y, c.named ch k = some x → s.table k c.nodeVer = some y → x = y

/-- Each call of the run returns again what an earlier call has returned for its node version. -/
def Stable (s : Caches) (calls : List Call) : Prop :=
  ∀ before c between d after s₁ s₂, calls = before ++ c :: (between ++ d :: after) →
    exec (step ch) s before = some s₁ → exec (step ch) s₁ (c :: between) = some s₂ →
    ∀ k x, c.Asks k → d.Asks k → d.nodeVer = c.nodeVer → returned ch s₁ c k = some x → returned ch s₂ d k = some x

variable {ch} {s t : Caches} {c : Call}

theorem named_sdk (c : Call) : c.named ch .sdk = (scanCliReleases ch c.page c.nodeVer).sdk := by
  unfold Call.named
  cases c.page with
  | none => rfl
  | some rels => exact (scanned_sdk ch rels c.nodeVer).symm

theorem named_cli (c : Call) : c.named ch .cli = (scanCliReleases ch c.page c.nodeVer).cli := by
  unfold Call.named
  cases c.page with
  | none => rfl
  | some rels => exact (scanned_cli ch rels c.nodeVer).symm

theorem scanned_table (s : Caches) (c : Call) (k : Kind) :
    (s.scanned ch c.page c.nodeVer).table k c.nodeVer = (c.named ch k).or (s.table k c.nodeVer) := by
  unfold Caches.scanned
  dsimp only
  split
  next =>
    cases k with
    | sdk => exact (put_self _ _ _).trans (by rw [named_sdk]; rfl)
    | cli => exact (put_self _ _ _).trans (by rw [named_cli]; rfl)
  next hnone =>
    rw [← named_sdk, ← named_cli] at hnone
    simp only [Bool.or_eq_true, Option.isSome_iff_ne_none, not_or, ne_eq, Decidable.not_not] at hnone
    cases k with
    | sdk => rw [hnone.2]; rfl
    | cli => rw [hnone.1]; rfl

theorem scanned_frame (s : Caches) (c : Call) (k : Kind) {ver : String} (h : ver ≠ c.nodeVer) :
    (s.scanned ch c.page c.nodeVer).table k ver = s.table k ver := by
  unfold Caches.scanned
  dsimp only
  split
  next =>
    cases k with
    | sdk => exact put_of_ne h
    | cli => exact put_of_ne h
  next => rfl

/-- A call returns what is kept, before what its page names. -/
theorem returned_eq {k : Kind} (h : c.Asks k) : returned ch s c k = (s.table k c.nodeVer).or (c.named ch k) := by
  obtain ⟨lookup, tag, page⟩ := c
  cases k with
  | sdk =>
    rw [named_sdk]
    cases lookup with
    | cli => exact absurd rfl h
    | sdk =>
      simp only [returned, resolveSdkVersion, Caches.table, Call.nodeVer]
      cases s.sdk (lstripV tag) <;> rfl
    | versions =>
      simp only [returned, resolveVersions, Caches.table, Call.nodeVer]
      cases s.sdk (lstripV tag) <;> cases s.cli (lstripV tag) <;> rfl
    | all =>
      simp only [returned, resolveAll, Caches.table, Call.nodeVer]
      cases s.sdk (lstripV tag) <;> cases s.cli (lstripV tag) <;> rfl
  | cli =>
    rw [named_cli]
    cases lookup with
    | sdk => exact absurd rfl h
    | cli =>
      simp only [returned, resolveCliVersion, Caches.table, Call.nodeVer]
      cases s.cli (lstripV tag) <;> rfl
    | versions =>
      simp only [returned, resolveVersions, Caches.table, Call.nodeVer]
      cases s.sdk (lstripV tag) <;> cases s.cli (lstripV tag) <;> rfl
    | all =>
      simp only [returned, resolveAll, Caches.table, Call.nodeVer]
      cases s.sdk (lstripV tag) <;> cases s.cli (lstripV tag) <;> rfl

theorem not_misses_of_kept {sdk cli : String} (hsdk : s.sdk c.nodeVer = some sdk) (hcli : s.cli c.nodeVer = some cli) :
    ¬ Misses s c := by
  rintro ⟨k, -, hnone⟩
  cases k with
  | sdk => exact absurd (hsdk.symm.trans hnone) (Option.some_ne_none sdk)
  | cli => exact absurd (hcli.symm.trans hnone) (Option.some_ne_none cli)

theorem misses_of_not_kept (hasks : ∀ k, c.Asks k)
    (h : ∀ sdk cli, s.sdk c.nodeVer = some sdk → s.cli c.nodeVer = some cli → False) : Misses s c := by
  cases hsdk : s.sdk c.nodeVer with
  | none => exact ⟨.sdk, hasks .sdk, hsdk⟩
  | some sdk =>
    cases hcli : s.cli c.nodeVer with
    | none => exact ⟨.cli, hasks .cli, hcli⟩
    | some cli => exact (h sdk cli hsdk hcli).elim

/-- A call that misses keeps what its page names, and any other leaves the tables as they are. -/
theorem step_cases (h : step ch s c = some t) :
    (¬ Misses s c ∧ t = s) ∨ (Misses s c ∧ t = s.scanned ch c.page c.nodeVer) := by
  obtain ⟨lookup, tag, page⟩ := c
  have hmiss : ∀ k, Call.Asks ⟨lookup, tag, page⟩ k → s.table k (lstripV tag) = none →
      Misses s ⟨lookup, tag, page⟩ := fun k hk hnone => ⟨k, hk, hnone⟩
  cases lookup with
  | sdk =>
    simp only [step, resolveSdkVersion] at h
    split at h
    next sdk hsdk =>
      refine Or.inl ⟨?_, (Option.some.inj h).symm⟩
      rintro ⟨k, hk, hnone⟩
      cases k with
      | sdk => exact absurd (hsdk.symm.trans hnone) (Option.some_ne_none sdk)
      | cli => exact hk rfl
    next hnone => exact Or.inr ⟨hmiss .sdk Lookup.noConfusion hnone, (Option.some.inj h).symm⟩
  | cli =>
    simp only [step, resolveCliVersion] at h
    split at h
    next cli hcli =>
      refine Or.inl ⟨?_, (Option.some.inj h).symm⟩
      rintro ⟨k, hk, hnone⟩
      cases k with
      | sdk => exact hk rfl
      | cli => exact absurd (hcli.symm.trans hnone) (Option.some_ne_none cli)
    next hnone => exact Or.inr ⟨hmiss .cli Lookup.noConfusion hnone, (Option.some.inj h).symm⟩
  | versions =>
    simp only [step, resolveVersions] at h
    split at h
    next sdk cli hsdk hcli => exact Or.inl ⟨not_misses_of_kept hsdk hcli, (Option.some.inj h).symm⟩
    next hne =>
      refine Or.inr ⟨misses_of_not_kept (fun k => ?_) hne, (Option.some.inj h).symm⟩
      cases k <;> exact Lookup.noConfusion
  | all =>
    simp only [step, resolveAll] at h
    split at h
    next sdk cli hsdk hcli => exact Or.inl ⟨not_misses_of_kept hsdk hcli, (Option.some.inj h).symm⟩
    next hne =>
      refine Or.inr ⟨misses_of_not_kept (fun k => ?_) hne, (Option.some.inj h).symm⟩
      cases k <;> exact Lookup.noConfusion

/-- A call whose page repeats what is kept changes no entry. -/
theorem step_keeps (h : step ch s c = some t) (hrepeats : Repeats ch s c) {k : Kind} {ver x : String}
    (hx : s.table k ver = some x) : t.table k ver = some x := by
  rcases step_cases h with ⟨-, rfl⟩ | ⟨hmiss, rfl⟩
  · exact hx
  · by_cases hver : ver = c.nodeVer
    · rw [hver] at hx ⊢
      rw [scanned_table, hx]
      cases hnamed : c.named ch k with
      | none => rfl
      | some y => exact congrArg some (hrepeats hmiss k y x hnamed hx)
    · rw [scanned_frame s c k hver]
      exact hx

/-- What a call returns is kept after it. -/
theorem returned_kept (h : step ch s c = some t) (hrepeats : Repeats ch s c) {k : Kind} {x : String}
    (hasks : c.Asks k) (hx : returned ch s c k = some x) : t.table k c.nodeVer = some x := by
  rw [returned_eq hasks] at hx
  rcases Option.or_eq_some_iff.mp hx with hkept | ⟨hnone, hnamed⟩
  · exact step_keeps h hrepeats hkept
  · rcases step_cases h with ⟨hmiss, -⟩ | ⟨-, rfl⟩
    · exact absurd ⟨k, hasks, hnone⟩ hmiss
    · rw [scanned_table, hnamed]
      rfl

theorem kept_returned {k : Kind} {x : String} (hasks : c.Asks k) (hx : s.table k c.nodeVer = some x) :
    returned ch s c k = some x := by
  rw [returned_eq hasks, hx]
  rfl

/-- The versions that a process resolves are stable, if no page that is read names another version in
place of one that is kept. -/
theorem resolution_stable {calls : List Call} (h : Always (step ch) (fun s c _ => Repeats ch s c) .initial calls) :
    Stable ch .initial calls := by
  rintro before c between d after s₁ s₂ rfl hbefore hbetween k x hc hd hver hx
  obtain ⟨hnow, hrest⟩ : Repeats ch s₁ c ∧ ∀ t, step ch s₁ c = some t →
      Always (step ch) (fun s c _ => Repeats ch s c) t between := by
    have htail := (always_append_iff.mp h).2 s₁ hbefore
    obtain ⟨t, ht, -⟩ := Option.bind_eq_some_iff.mp hbetween
    refine ⟨(htail t ht).1, fun u hu => ?_⟩
    exact (always_append_iff.mp (htail u hu).2).1
  obtain ⟨t, ht, hbetween⟩ := Option.bind_eq_some_iff.mp hbetween
  have hkept : s₂.table k c.nodeVer = some x :=
    exec_invariant_always (I := fun s => s.table k c.nodeVer = some x)
      (fun _ _ _ hu hstep hrepeats => step_keeps hstep hrepeats hu) (returned_kept ht hnow hc hx) (hrest t ht) hbetween
  exact kept_returned hd (by rw [hver]; exact hkept)

end Calls

theorem cliRelease_named : "v2.0.0-alpha.35" ≠ "" := by decide

/-- A CLI release that names a node version and no SDK. -/
def cliRelease : Release where
  tagName := "v2.0.0-alpha.35"
  body := some "bump rollups-node to v2.0.0-alpha.12"
  named := cliRelease_named

theorem laterRelease_named : "v2.0.0-alpha.36" ≠ "" := by decide

/-- A later one that names the same node version and an SDK. -/
def laterRelease : Release where
  tagName := "v2.0.0-alpha.36"
  body := some "bump rollups-node to v2.0.0-alpha.12, @cartesi/sdk@0.12.0-alpha.41"
  named := laterRelease_named

def cliCall (page : Option (List Release)) : Call := ⟨.cli, "v2.0.0-alpha.12", page⟩

def sdkCall (page : Option (List Release)) : Call := ⟨.sdk, "v2.0.0-alpha.12", page⟩

theorem resolution_stable_failures :
    Stable .ascii .initial [cliCall (some [cliRelease]), sdkCall none, cliCall none] := by
  have hinitial : ∀ k, Caches.initial.table k (cliCall (some [cliRelease])).nodeVer = none := by
    intro k
    cases k <;> decide +kernel
  refine resolution_stable fun s _ => ⟨fun _ k x y _ hy => ?_, fun t _ => ⟨?_, fun u _ => ⟨?_, trivial⟩⟩⟩
  · rw [hinitial k] at hy
    cases hy
  · intro _ k x y hx
    cases k <;> cases hx
  · intro _ k x y hx
    cases k <;> cases hx

/-- A lookup of the SDK replaces the CLI that another has returned. -/
theorem cli_replaced :
    ¬ Stable .ascii .initial
      [cliCall (some [cliRelease]), sdkCall (some [laterRelease, cliRelease]), cliCall none] := by
  intro h
  have hafter : ((exec (step .ascii) .initial [cliCall (some [cliRelease]), sdkCall (some [laterRelease, cliRelease])]).bind
      fun s => returned .ascii s (cliCall none) .cli) = some "2.0.0-alpha.36" := by decide +kernel
  have hbefore : returned .ascii .initial (cliCall (some [cliRelease])) .cli = some "2.0.0-alpha.35" := by decide +kernel
  obtain ⟨s, hs, hreturned⟩ := Option.bind_eq_some_iff.mp hafter
  have hkept := h [] _ [_] _ [] _ s rfl rfl hs .cli _ Lookup.noConfusion Lookup.noConfusion rfl hbefore
  rw [hkept] at hreturned
  exact absurd hreturned (by decide)

end ReleaseValidation.Catalog.ResolverCaches
