import ReleaseValidation.Catalog.Integrity

/-! # The image of a node release

The image tag of a release is derived from its tag and its SDK version in Python, and twice
in SQL from the columns of the catalog. The SQL takes the runtime image as soon as the CLI
has an SDK tag, the Python only if a version is left of it without its leading `v`s.
-/
namespace ReleaseValidation.Catalog
open Runs References

/-- What a query of the catalog gives of a release. -/
structure Selected where
  imageTag : String
  sdkVersion : Option String
  deriving DecidableEq, Repr

/-- `_IMAGE_TAG_EXPR`: a comparison with NULL is not true. -/
def imageTagExpr (tag : String) (nodeMajorVersion : Option ℤ) (sdkTag : Option String) : String :=
  if nodeMajorVersion.any (fun major => decide (2 ≤ major)) && sdkTag.isSome then
    "cartesi/rollups-runtime:" ++ lstripV (sdkTag.getD "")
  else "cartesi/rollups-node:" ++ lstripV tag

/-- The SDK tag that the join through the CLI of a release selects. -/
def joinedSdk (db : Db) (rc : ReleaseRow) : Option String := (rc.cliTag.bind (db .cli)).bind CliRow.sdkTag

/-- The row of `list_releases` for a release. -/
def listedRelease (db : Db) (tag : String) : Option Selected :=
  (db .release tag).map fun rc => ⟨imageTagExpr tag rc.nodeMajorVersion (joinedSdk db rc), (joinedSdk db rc).map lstripV⟩

/-- The row that `ReleasesConsumer._handle` selects. -/
def consumedRelease (db : Db) (tag : String) : Option Selected :=
  (lookup db tag).map fun t => ⟨t.imageTag, t.sdkTag.map lstripV⟩

theorem consumed_eq_listed (db : Db) (tag : String) : consumedRelease db tag = listedRelease db tag := by
  unfold consumedRelease listedRelease lookup
  rw [Option.map_map]
  refine congrArg (fun f => (db .release tag).map f) (funext fun rc => ?_)
  obtain ⟨cliTag, nodeMajorVersion⟩ := rc
  unfold joinedSdk imageTagExpr
  dsimp only [Function.comp_apply]
  generalize (cliTag.bind (db .cli)).bind CliRow.sdkTag = sdkTag
  cases nodeMajorVersion with
  | none => rfl
  | some major =>
    cases sdkTag with
    | none => simp
    | some sdk => simp

theorem runtime_ne_node (a b : String) : "cartesi/rollups-runtime:" ++ a ≠ "cartesi/rollups-node:" ++ b := by
  intro h
  have hlist := congrArg (fun s => s.toList.drop 16) h
  simp at hlist

section Agreement
variable (ch : Characters) {db : Db} {tag : String} {rc : ReleaseRow}

/-- The expression agrees with the derivation, unless it takes the runtime image without a version. -/
theorem imageTagExpr_eq_iff (tag : String) (sdkTag : Option String) :
    imageTagExpr tag (some (nodeMajorVersion ch tag)) sdkTag = deriveImageTag ch tag (sdkTag.map lstripV) ↔
      ¬ (2 ≤ nodeMajorVersion ch tag ∧ sdkTag.map lstripV = some "") := by
  unfold imageTagExpr deriveImageTag
  generalize nodeMajorVersion ch tag = major
  rw [Option.any_some]
  cases sdkTag with
  | none =>
    rw [Option.isSome_none, Bool.and_false, if_neg Bool.false_ne_true]
    exact iff_of_true rfl fun h => by cases h.2
  | some sdk =>
    rw [Option.isSome_some, Bool.and_true, Option.map_some, Option.getD_some, Option.some_inj]
    dsimp only
    by_cases hmajor : 2 ≤ major
    · rw [if_pos (decide_eq_true hmajor)]
      by_cases hsdk : lstripV sdk = ""
      · rw [if_neg fun h => h.2 hsdk]
        exact iff_of_false (runtime_ne_node _ _) fun h => h ⟨hmajor, hsdk⟩
      · rw [if_pos ⟨hmajor, hsdk⟩]
        exact iff_of_true rfl fun h => hsdk h.2
    · rw [if_neg (fun h => hmajor (of_decide_eq_true h)), if_neg fun h => hmajor h.1]
      exact iff_of_true rfl fun h => hmajor h.1

/-- The two queries give the image that is derived from the SDK version they give, unless a node of
major version two or more has an SDK tag of nothing but `v`s. -/
theorem image_tag_derived_iff (hrow : db .release tag = some rc)
    (hmajor : rc.nodeMajorVersion = some (nodeMajorVersion ch tag)) :
    (∃ consumed listed, consumedRelease db tag = some consumed ∧ listedRelease db tag = some listed ∧
        consumed.imageTag = deriveImageTag ch tag consumed.sdkVersion ∧
        listed.imageTag = deriveImageTag ch tag listed.sdkVersion) ↔
      ¬ (2 ≤ nodeMajorVersion ch tag ∧ (joinedSdk db rc).map lstripV = some "") := by
  have hlisted : listedRelease db tag =
      some ⟨imageTagExpr tag (some (nodeMajorVersion ch tag)) (joinedSdk db rc), (joinedSdk db rc).map lstripV⟩ := by
    rw [listedRelease, hrow, Option.map_some, hmajor]
  rw [consumed_eq_listed, hlisted, ← imageTagExpr_eq_iff]
  constructor
  · rintro ⟨consumed, listed, hc, -, h, -⟩
    rw [← Option.some.inj hc] at h
    dsimp only at h
    exact h
  · intro h
    refine ⟨_, _, rfl, rfl, ?_, ?_⟩
    · dsimp only
      exact h
    · dsimp only
      exact h

end Agreement

theorem image_tag_derived_seeded :
    (∃ consumed listed, consumedRelease seeded "v2.0.0-alpha.11" = some consumed ∧
        listedRelease seeded "v2.0.0-alpha.11" = some listed ∧
        consumed.imageTag = deriveImageTag .ascii "v2.0.0-alpha.11" consumed.sdkVersion ∧
        listed.imageTag = deriveImageTag .ascii "v2.0.0-alpha.11" listed.sdkVersion) := by
  have hrow : seeded .release "v2.0.0-alpha.11" = some ⟨some "v2.0.0-alpha.34", some 2⟩ := by decide +kernel
  have hmajor : nodeMajorVersion .ascii "v2.0.0-alpha.11" = 2 := by decide +kernel
  have hsdk : (joinedSdk seeded ⟨some "v2.0.0-alpha.34", some 2⟩).map lstripV ≠ some "" := by decide +kernel
  refine (image_tag_derived_iff .ascii hrow ?_).mpr fun h => hsdk h.2
  rw [hmajor]

/-- An SDK version that is just `v`. -/
def bareSdk : Act := .updateToolchain "v2.0.0-alpha.11" ⟨none, some "v", none, none⟩

theorem bare_sdk_differs :
    ∃ db rc, exec (step .ascii) seeded [bareSdk] = some db ∧ db .release "v2.0.0-alpha.11" = some rc ∧
      rc.nodeMajorVersion = some (nodeMajorVersion .ascii "v2.0.0-alpha.11") ∧
      ∃ selected, consumedRelease db "v2.0.0-alpha.11" = some selected ∧
        listedRelease db "v2.0.0-alpha.11" = some selected ∧ selected.imageTag = "cartesi/rollups-runtime:" ∧
        deriveImageTag .ascii "v2.0.0-alpha.11" selected.sdkVersion = "cartesi/rollups-node:2.0.0-alpha.11" := by
  have hrow : ((step .ascii seeded bareSdk).bind fun db => db .release "v2.0.0-alpha.11") =
      some ⟨some "v2.0.0-alpha.34", some 2⟩ := by decide +kernel
  have hselected : ((step .ascii seeded bareSdk).bind fun db => consumedRelease db "v2.0.0-alpha.11") =
      some ⟨"cartesi/rollups-runtime:", some ""⟩ := by decide +kernel
  obtain ⟨db, hdb, hrow⟩ := Option.bind_eq_some_iff.mp hrow
  rw [hdb, Option.bind_some] at hselected
  refine ⟨db, _, by rw [exec_cons, hdb]; rfl, hrow, by decide +kernel, _, hselected, ?_, rfl, by decide +kernel⟩
  rw [← consumed_eq_listed, hselected]

end ReleaseValidation.Catalog
