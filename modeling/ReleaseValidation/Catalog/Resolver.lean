import ReleaseValidation.Catalog.Writers

/-! # The resolver of toolchain versions

For a node tag the resolver has two tables of confirmed versions and otherwise scans one
page of CLI releases, of which it collects the first version of each kind among the
releases whose text names the node version. The results it keeps in the process are those
of earlier scans and are left out.
-/
namespace ReleaseValidation.Catalog

/-- `KNOWN`. -/
def knownSdk : List (String × String) :=
  [("2.0.0-alpha.11", "0.12.0-alpha.39"), ("2.0.0-alpha.9", "0.12.0-alpha.27"), ("2.0.0-alpha.8", "0.12.0-alpha.23"),
    ("2.0.0-alpha.7", "0.12.0-alpha.22")]

/-- `KNOWN_CLI`. -/
def knownCli : List (String × String) :=
  [("2.0.0-alpha.11", "2.0.0-alpha.34"), ("2.0.0-alpha.9", "2.0.0-alpha.22"), ("2.0.0-alpha.8", "2.0.0-alpha.19"),
    ("2.0.0-alpha.7", "2.0.0-alpha.13")]

section Scans
variable (ch : Characters)

/-- The release's text names the node version, as the resolver reads it. -/
def Release.Targets (nodeVer : String) (rel : Release) : Prop :=
  (extractVersionsFromCliBody ch rel.text).node = some nodeVer

instance (nodeVer : String) (rel : Release) : Decidable (rel.Targets ch nodeVer) := inferInstanceAs (Decidable (_ = _))

/-- Each version that is not found yet is taken from the release. -/
def collect (found : Versions) (rel : Release) : Versions :=
  let v := extractVersionsFromCliBody ch rel.text
  { sdk := found.sdk.or (present v.sdk)
    cli := found.cli.or (present (some (lstripV rel.tagName)))
    devnet := found.devnet.or (present v.devnet)
    contracts := found.contracts.or (present v.contracts) }

/-- The loop of `_scan_cli_releases`, which stops when an SDK and a CLI are found. -/
def scan (nodeVer : String) : Versions → List Release → Versions
  | found, [] => found
  | found, rel :: rels =>
    if rel.Targets ch nodeVer then
      let found := collect ch found rel
      if found.cli.isSome && found.sdk.isSome then found else scan nodeVer found rels
    else scan nodeVer found rels

/-- `_scan_cli_releases`, for a request that is answered with the page or fails. -/
def scanCliReleases (page : Option (List Release)) (nodeVer : String) : Versions :=
  match page with
  | some rels => scan ch nodeVer .unknown rels
  | none => .unknown

/-- `resolve_all_versions`. -/
def resolveAllVersions (page : Option (List Release)) (nodeTag : String) : Versions :=
  let nodeVer := lstripV nodeTag
  match knownSdk.lookup nodeVer, knownCli.lookup nodeVer with
  | some sdk, some cli => ⟨some sdk, some cli, none, none⟩
  | sdk, cli =>
    let scanned := scanCliReleases ch page nodeVer
    ⟨sdk.or scanned.sdk, cli.or scanned.cli, scanned.devnet, scanned.contracts⟩

variable {ch} {nodeVer : String} {rel : Release} {rels : List Release} {found : Versions}

theorem collect_collect : collect ch (collect ch found rel) rel = collect ch found rel := by
  simp [collect, Option.or_assoc]

/-- A scan finds what the one release has that names the version. -/
theorem scan_collected (hrels : ∀ r ∈ rels, r.Targets ch nodeVer → r = rel) :
    scan ch nodeVer (collect ch found rel) rels = collect ch found rel := by
  induction rels with
  | nil => rfl
  | cons r rels ih =>
    have htail := ih fun r' hr' => hrels r' (List.mem_cons_of_mem _ hr')
    simp only [scan]
    split
    next htargets =>
      rw [hrels r List.mem_cons_self htargets, collect_collect, htail, ite_self]
    next => exact htail

theorem scan_unique (hmem : rel ∈ rels) (htargets : rel.Targets ch nodeVer)
    (hrels : ∀ r ∈ rels, r.Targets ch nodeVer → r = rel) : scan ch nodeVer found rels = collect ch found rel := by
  induction rels with
  | nil => cases hmem
  | cons r rels ih =>
    have htail : ∀ r' ∈ rels, r'.Targets ch nodeVer → r' = rel := fun r' hr' => hrels r' (List.mem_cons_of_mem _ hr')
    simp only [scan]
    split
    next h =>
      rw [hrels r List.mem_cons_self h, scan_collected htail, ite_self]
    next h =>
      rcases List.mem_cons.mp hmem with rfl | hmem
      · exact absurd htargets h
      · exact ih hmem htail

/-- The CLI that a scan finds is that of a release that names the version. -/
theorem cli_of_scan {x : String} (h : (scan ch nodeVer found rels).cli = some x) :
    found.cli = some x ∨ ∃ r ∈ rels, r.Targets ch nodeVer ∧ lstripV r.tagName = x := by
  induction rels generalizing found with
  | nil => exact Or.inl h
  | cons r rels ih =>
    simp only [scan] at h
    split at h
    next htargets =>
      have hcollect : (collect ch found r).cli = some x →
          found.cli = some x ∨ ∃ r' ∈ r :: rels, r'.Targets ch nodeVer ∧ lstripV r'.tagName = x := by
        intro hx
        rcases Option.or_eq_some_iff.mp hx with hx | ⟨-, hx⟩
        · exact Or.inl hx
        · have htag := (Option.filter_eq_some_iff.mp hx).1
          exact Or.inr ⟨r, List.mem_cons_self, htargets, Option.some.inj htag⟩
      split at h
      next => exact hcollect h
      next =>
        rcases ih h with hx | ⟨r', hr', hrest⟩
        · exact hcollect hx
        · exact Or.inr ⟨r', List.mem_cons_of_mem _ hr', hrest⟩
    next =>
      rcases ih h with hx | ⟨r', hr', hrest⟩
      · exact Or.inl hx
      · exact Or.inr ⟨r', List.mem_cons_of_mem _ hr', hrest⟩

/-- A CLI that is resolved is the confirmed one or that of a release that names the version. -/
theorem cli_of_resolve {page : Option (List Release)} {tag x : String}
    (h : (resolveAllVersions ch page tag).cli = some x) :
    knownCli.lookup (lstripV tag) = some x ∨
      ∃ rs, page = some rs ∧ ∃ r ∈ rs, r.Targets ch (lstripV tag) ∧ lstripV r.tagName = x := by
  have hscanned : (scanCliReleases ch page (lstripV tag)).cli = some x →
      ∃ rs, page = some rs ∧ ∃ r ∈ rs, r.Targets ch (lstripV tag) ∧ lstripV r.tagName = x := by
    intro hx
    cases page with
    | none => cases hx
    | some rs =>
      rcases cli_of_scan hx with hx | hr
      · cases hx
      · exact ⟨rs, rfl, hr⟩
  simp only [resolveAllVersions] at h
  split at h
  next sdk cli _ hcli => exact Or.inl (hcli.trans h)
  next =>
    rcases Option.or_eq_some_iff.mp h with hx | ⟨-, hx⟩
    · exact Or.inl hx
    · exact Or.inr (hscanned hx)

end Scans
end ReleaseValidation.Catalog
