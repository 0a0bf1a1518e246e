import ReleaseValidation.Catalog.ResolverCaches
import ReleaseValidation.Catalog.ToolchainLinks
import ReleaseValidation.Catalog.ToolchainReadBack

/-! # Which releases the resolver takes for a CLI

The CLI repository publishes the releases of the SDK as well. The watcher tells the two apart by the
major version of the tag; the resolver takes the first release on the page that names the node
version, of either kind.
-/
namespace ReleaseValidation.Catalog.CliVersions
open Runs References ResolverCaches ToolchainLinks

/-- The tables of the resolver in the watcher's process, and the catalog. -/
structure Process where
  caches : Caches
  db : Db

/-- A lookup of versions, and the handling of a node release, which looks up the versions of a node
of major version two or more. -/
inductive Event
  | lookUp (c : Call)
  | processRelease (rel : Release) (page : Option (List Release))

section Processes
variable (ch : Characters)

/-- The call of the resolver that an event makes. -/
def Event.call : Event → Option Call
  | .lookUp c => some c
  | .processRelease rel page => if 2 ≤ nodeMajorVersion ch rel.tagName then some ⟨.all, rel.tagName, page⟩ else none

def step (s : Process) : Event → Option Process
  | .lookUp c => (ResolverCaches.step ch s.caches c).map fun caches => { s with caches := caches }
  | .processRelease rel page =>
    let resolved :=
      if 2 ≤ nodeMajorVersion ch rel.tagName then resolveAll ch s.caches page rel.tagName else (.unknown, s.caches)
    (Catalog.step ch s.db (.upsertNodeCatalog resolved.1 rel)).map fun db => ⟨resolved.2, db⟩

/-- The first release with a tag that names the node version is one of the CLI. -/
def FirstIsCli (nodeVer : String) (page : Option (List Release)) : Prop :=
  ∀ before rel after, page = some (before ++ rel :: after) → rel.Targets ch nodeVer → lstripV rel.tagName ≠ "" →
    (∀ r ∈ before, r.Targets ch nodeVer → lstripV r.tagName = "") → isCliRelease ch rel.tagName = true

/-- A page that is read has a CLI release first among those that name the node version. -/
def CliFirst (s : Process) (e : Event) : Prop :=
  ∀ c, e.call ch = some c → Misses s.caches c → FirstIsCli ch c.nodeVer c.page

/-- Every version that is kept for a CLI is one. -/
def CliKept (caches : Caches) : Prop := ∀ ver x, caches.cli ver = some x → isCliRelease ch x = true

/-- The CLI versions that the event returns, keeps and stores are those of CLI releases. -/
structure Resolves (s : Process) (e : Event) (t : Process) : Prop where
  returned : ∀ c, e.call ch = some c → ∀ x, ResolverCaches.returned ch s.caches c .cli = some x →
    isCliRelease ch x = true
  kept : CliKept ch t.caches
  linked : ∀ tag x, (t.db .release tag).bind ReleaseRow.cliTag = some x →
    (s.db .release tag).bind ReleaseRow.cliTag = some x ∨ isCliRelease ch x = true
  stored : ∀ x, (t.db .cli x).isSome → (s.db .cli x).isSome ∨ isCliRelease ch x = true

theorem isCliRelease_lstripV (tag : String) : isCliRelease ch (lstripV tag) = isCliRelease ch tag := by
  simp only [isCliRelease, leadingNumber, lstripV_idem]

theorem isCliRelease_withV (x : String) : isCliRelease ch (withV x) = isCliRelease ch x := by
  simp only [isCliRelease, leadingNumber, lstripV_withV]

variable {ch} {s t : Process} {e : Event}

theorem named_cli_iff {nodeVer : String} {rel : Release} {x : String} :
    (if rel.Targets ch nodeVer then present (some (lstripV rel.tagName)) else none) = some x ↔
      rel.Targets ch nodeVer ∧ lstripV rel.tagName = x ∧ x ≠ "" := by
  split
  next htargets =>
    rw [present, Option.filter_eq_some_iff, decide_eq_true_iff, Option.some_inj]
    exact (and_iff_right htargets).symm
  next htargets => exact iff_of_false (Option.some_ne_none x).symm fun h => htargets h.1

theorem named_cli_none_iff {nodeVer : String} {rel : Release} :
    (if rel.Targets ch nodeVer then present (some (lstripV rel.tagName)) else none) = none ↔
      (rel.Targets ch nodeVer → lstripV rel.tagName = "") := by
  rw [Option.eq_none_iff_forall_ne_some]
  constructor
  · intro h htargets
    by_contra hne
    exact h _ (named_cli_iff.mpr ⟨htargets, rfl, hne⟩)
  · intro h x hx
    obtain ⟨htargets, rfl, hne⟩ := named_cli_iff.mp hx
    exact hne (h htargets)

/-- What a page names for a node version is a CLI, if the first release that names it is. -/
theorem named_isCli_iff (c : Call) :
    (∀ x, c.named ch .cli = some x → isCliRelease ch x = true) ↔ FirstIsCli ch c.nodeVer c.page := by
  constructor
  · intro h before rel after hpage htargets hne hbefore
    rw [← isCliRelease_lstripV]
    refine h _ ?_
    simp only [Call.named, hpage, Option.bind_some]
    exact List.findSome?_eq_some_iff.mpr ⟨before, rel, after, rfl, named_cli_iff.mpr ⟨htargets, rfl, hne⟩,
      fun r hr => named_cli_none_iff.mpr (hbefore r hr)⟩
  · intro h x hx
    obtain ⟨rels, hpage, hx⟩ := Option.bind_eq_some_iff.mp hx
    obtain ⟨before, rel, after, rfl, hrel, hbefore⟩ := List.findSome?_eq_some_iff.mp hx
    obtain ⟨htargets, rfl, hne⟩ := named_cli_iff.mp hrel
    rw [isCliRelease_lstripV]
    exact h before rel after hpage htargets hne fun r hr => named_cli_none_iff.mp (hbefore r hr)

/-- A call returns and keeps CLI releases if and only if the page, where it reads it, has one first. -/
theorem call_iff {caches caches' : Caches} {c : Call} (hkept : CliKept ch caches)
    (h : ResolverCaches.step ch caches c = some caches') :
    ((∀ x, returned ch caches c .cli = some x → isCliRelease ch x = true) ∧ CliKept ch caches') ↔
      (Misses caches c → FirstIsCli ch c.nodeVer c.page) := by
  constructor
  · rintro ⟨-, hkept'⟩ hmiss
    rw [← named_isCli_iff]
    intro x hx
    rcases ResolverCaches.step_cases h with ⟨hhit, -⟩ | ⟨-, rfl⟩
    · exact absurd hmiss hhit
    · refine hkept' c.nodeVer x ?_
      have htable : (caches.scanned ch c.page c.nodeVer).table .cli c.nodeVer = _ := scanned_table caches c .cli
      rw [hx] at htable
      exact htable
  · intro hfirst
    have hnamed : Misses caches c → ∀ x, c.named ch .cli = some x → isCliRelease ch x = true :=
      fun hmiss => (named_isCli_iff c).mpr (hfirst hmiss)
    constructor
    · intro x hx
      by_cases hasks : c.Asks .cli
      · rw [returned_eq hasks] at hx
        rcases Option.or_eq_some_iff.mp hx with hx | ⟨hnone, hx⟩
        · exact hkept _ x hx
        · exact hnamed ⟨.cli, hasks, hnone⟩ x hx
      · have hlookup : c.lookup = .sdk := Decidable.not_not.mp hasks
        simp only [returned, hlookup] at hx
        cases hx
    · intro ver x hx
      rcases ResolverCaches.step_cases h with ⟨-, rfl⟩ | ⟨hmiss, rfl⟩
      · exact hkept ver x hx
      · by_cases hver : ver = c.nodeVer
        · have htable : (caches.scanned ch c.page c.nodeVer).table .cli c.nodeVer = _ := scanned_table caches c .cli
          rw [hver] at hx
          rcases Option.or_eq_some_iff.mp (htable.symm.trans hx) with hx | ⟨-, hx⟩
          · exact hnamed hmiss x hx
          · exact hkept _ x hx
        · exact hkept ver x ((scanned_frame caches c .cli hver).symm.trans hx)

/-- What the handling of a node release stores for its CLI is the version it has looked up. -/
theorem stored_cli_version {db db' : Db} {rel : Release} {v : Versions}
    (h : Catalog.step ch db (.upsertNodeCatalog v rel) = some db')
    (hcli : 2 ≤ nodeMajorVersion ch rel.tagName → ∀ x, v.cli = some x → isCliRelease ch x = true) :
    (∀ tag x, (db' .release tag).bind ReleaseRow.cliTag = some x →
        (db .release tag).bind ReleaseRow.cliTag = some x ∨ isCliRelease ch x = true) ∧
      ∀ x, (db' .cli x).isSome → (db .cli x).isSome ∨ isCliRelease ch x = true := by
  have hused : ∀ x, presentV (usedVersions ch v rel).cli = some x → isCliRelease ch x = true := by
    intro x hx
    obtain ⟨y, hy, rfl⟩ := Option.map_eq_some_iff.mp hx
    have hfound := (Option.filter_eq_some_iff.mp hy).1
    rw [isCliRelease_withV]
    unfold usedVersions at hfound
    split at hfound
    next hmajor => exact hcli hmajor y hfound
    next => cases hfound
  constructor
  · intro tag x hx
    have hrow := node_release h rfl tag
    by_cases htag : tag = rel.tagName
    · rw [if_pos htag] at hrow
      rw [hrow, Option.bind_some] at hx
      simp only [coalesce] at hx
      rcases Option.or_eq_some_iff.mp hx with hx | ⟨-, hx⟩
      · exact Or.inr (hused x hx)
      · exact Or.inl hx
    · rw [if_neg htag] at hrow
      rw [hrow] at hx
      exact Or.inl hx
  · intro x hx
    have hrow := node_cli h rfl x
    by_cases hfound : presentV (usedVersions ch v rel).cli = some x
    · exact Or.inr (hused x hfound)
    · rw [if_neg hfound] at hrow
      rw [hrow] at hx
      exact Or.inl hx

/-- The cases of a step: the tables are those after the call, and the catalog has what the call has returned. -/
theorem step_cases (h : step ch s e = some t) :
    (∃ c, e.call ch = some c ∧ ResolverCaches.step ch s.caches c = some t.caches ∧
      (t.db = s.db ∨ ∃ rel v, v.cli = returned ch s.caches c .cli ∧
        Catalog.step ch s.db (.upsertNodeCatalog v rel) = some t.db)) ∨
    (e.call ch = none ∧ t.caches = s.caches ∧
      ∃ rel, Catalog.step ch s.db (.upsertNodeCatalog .unknown rel) = some t.db) := by
  cases e with
  | lookUp c =>
    obtain ⟨caches, hcaches, rfl⟩ := Option.map_eq_some_iff.mp h
    exact Or.inl ⟨c, rfl, hcaches, Or.inl rfl⟩
  | processRelease rel page =>
    simp only [step] at h
    obtain ⟨db, hdb, rfl⟩ := Option.map_eq_some_iff.mp h
    by_cases hmajor : 2 ≤ nodeMajorVersion ch rel.tagName
    · have hcall : Event.call ch (.processRelease rel page) = some ⟨.all, rel.tagName, page⟩ := by
        rw [Event.call, if_pos hmajor]
      rw [if_pos hmajor] at hdb
      refine Or.inl ⟨_, hcall, ?_, Or.inr ⟨rel, (resolveAll ch s.caches page rel.tagName).1, rfl, hdb⟩⟩
      rw [if_pos hmajor]
      rfl
    · rw [if_neg hmajor] at hdb
      dsimp only at hdb
      have hcall : Event.call ch (.processRelease rel page) = none := by
        rw [Event.call, if_neg hmajor]
      refine Or.inr ⟨hcall, ?_, rel, hdb⟩
      rw [if_neg hmajor]

theorem resolves_iff (hkept : CliKept ch s.caches) (h : step ch s e = some t) :
    Resolves ch s e t ↔ CliFirst ch s e := by
  rcases step_cases h with ⟨c, hcall, hcaches, hdb⟩ | ⟨hcall, hcaches, rel, hdb⟩
  · have hiff := call_iff hkept hcaches
    constructor
    · intro hresolves d hd
      cases Option.some.inj (hcall.symm.trans hd)
      exact hiff.mp ⟨hresolves.returned c hcall, hresolves.kept⟩
    · intro hfirst
      obtain ⟨hreturned, hkept'⟩ := hiff.mpr (hfirst c hcall)
      have hstored : (∀ tag x, (t.db .release tag).bind ReleaseRow.cliTag = some x →
          (s.db .release tag).bind ReleaseRow.cliTag = some x ∨ isCliRelease ch x = true) ∧
          ∀ x, (t.db .cli x).isSome → (s.db .cli x).isSome ∨ isCliRelease ch x = true := by
        rcases hdb with hdb | ⟨rel, v, hv, hdb⟩
        · rw [hdb]
          exact ⟨fun _ _ => Or.inl, fun _ => Or.inl⟩
        · exact stored_cli_version hdb fun _ x hx => hreturned x (hv.symm.trans hx)
      refine ⟨fun d hd => ?_, hkept', hstored.1, hstored.2⟩
      cases Option.some.inj (hcall.symm.trans hd)
      exact hreturned
  · have hnone : ∀ x, Versions.unknown.cli = some x → isCliRelease ch x = true := fun x hx => by cases hx
    have hstored := stored_cli_version hdb fun _ => hnone
    have hno : ∀ c, e.call ch ≠ some c := fun c hc => by
      rw [hcall] at hc
      cases hc
    refine iff_of_true ⟨fun c hc => absurd hc (hno c), ?_, hstored.1, hstored.2⟩ fun c hc => absurd hc (hno c)
    rw [hcaches]
    exact hkept

theorem initial_kept (htwo : ch.decimal '2' = some 2) (hspace : ch.space '2' = false) : CliKept ch .initial := by
  intro ver x hx
  have hmem : x ∈ knownCli.map Prod.snd := by
    obtain ⟨l, r, hknown, -⟩ := List.lookup_eq_some_iff.mp hx
    rw [hknown]
    simp
  have hleading : isCliRelease ch x = (parseInt ch "2").any fun major => decide (2 ≤ major) := by
    simp only [knownCli, List.map_cons, List.map_nil, List.mem_cons, List.not_mem_nil, or_false] at hmem
    rcases hmem with rfl | rfl | rfl | rfl <;> rfl
  have htext : ("2" : String).toList = ['2'] := rfl
  rw [hleading]
  simp [parseInt, strip, htext, hspace, digits, htwo, moreDigits]

/-- The CLI versions of every run are those of CLI releases, if and only if each page that is read has a
CLI release first among those that name the node version. -/
theorem cli_versions_iff (htwo : ch.decimal '2' = some 2) (hspace : ch.space '2' = false) (db : Db)
    (events : List Event) :
    Always (step ch) (Resolves ch) ⟨.initial, db⟩ events ↔
      Always (step ch) (fun s e _ => CliFirst ch s e) ⟨.initial, db⟩ events :=
  always_iff_of_invariant (I := fun s => CliKept ch s.caches) (Q := Resolves ch) (R := fun s e _ => CliFirst ch s e)
    (fun _ _ _ hkept hstep => ⟨resolves_iff hkept hstep, fun h => h.kept⟩) (initial_kept htwo hspace)

end Processes

theorem nodeRelease_named : "v2.0.0-alpha.12" ≠ "" := by decide

def nodeRelease : Release where
  tagName := "v2.0.0-alpha.12"
  body := none
  named := nodeRelease_named

/-- A release of the SDK whose text names a node version. -/
def sdkRelease : Release where
  tagName := "v0.12.0-alpha.40"
  body := some "bump rollups-node to v2.0.0-alpha.12"
  named := by decide

theorem cli_versions_single_page :
    Always (step .ascii) (Resolves .ascii) ⟨.initial, seeded⟩ [.processRelease nodeRelease (some [cliRelease])] := by
  refine (cli_versions_iff (by decide) (by decide) seeded _).mpr fun t _ => ⟨?_, trivial⟩
  intro c hc _ before rel after hpage
  have hcall : Event.call .ascii (.processRelease nodeRelease (some [cliRelease])) =
      some ⟨.all, "v2.0.0-alpha.12", some [cliRelease]⟩ := rfl
  cases Option.some.inj (hcall.symm.trans hc)
  have hmem : rel ∈ [cliRelease] := by
    rw [Option.some.inj hpage]
    simp
  intro _ _ _
  rw [List.mem_singleton.mp hmem]
  decide +kernel

/-- The watcher stores the tag of an SDK release as the CLI of a node. -/
theorem sdk_stored_as_cli :
    ¬ Always (step .ascii) (Resolves .ascii) ⟨.initial, seeded⟩
      [.processRelease nodeRelease (some [sdkRelease, cliRelease])] := by
  intro h
  have hreturned : returned .ascii .initial ⟨.all, "v2.0.0-alpha.12", some [sdkRelease, cliRelease]⟩ .cli =
      some "0.12.0-alpha.40" := by decide +kernel
  obtain ⟨t, ht⟩ : ∃ t, step .ascii ⟨.initial, seeded⟩
    (.processRelease nodeRelease (some [sdkRelease, cliRelease])) = some t := ⟨_, rfl⟩
  have hcli := (h t ht).1.returned _ rfl _ hreturned
  have hsdk : isCliRelease .ascii "0.12.0-alpha.40" = false := by decide +kernel
  rw [hsdk] at hcli
  cases hcli

end ReleaseValidation.Catalog.CliVersions
