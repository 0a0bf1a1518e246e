import ReleaseValidation.Orchestrator.CreateDefinition
import ReleaseValidation.Orchestrator.SeedDefinitions

/-! # Whether the parsers of definitions agree

A document may be posted, seeded, and parsed by the runner, each with a fence and with checks of
its own. They agree on it if either none takes it, or all do and the two rows and the parsed
definition have the same fields; the runner sets no priority and no minimal version itself.
-/
namespace ReleaseValidation.Orchestrator.DefinitionAgreement
open Fences JsonTexts Programs Store TestDefinitions SeedDefinitions
open TestRunner.Interpreter (completed missing parseDefinition parseDefinition_ok Finds get?_completed
  missing_eq_none required version_completed tags_completed timeoutSeconds_completed)

def assertionsOf : Yaml → Option Yaml
  | .map m => Members.get? m "assertions"
  | _ => none

structure SameFields (r r' : Row) : Prop where
  slug : r.slug = r'.slug
  name : r.name = r'.name
  version : r.version = r'.version
  tags : r.tags = r'.tags
  priority : r.priority = r'.priority
  timeoutSeconds : r.timeoutSeconds = r'.timeoutSeconds
  minNodeMajorVersion : r.minNodeMajorVersion = r'.minNodeMajorVersion
  assertions : assertionsOf r.definitionParsed = assertionsOf r'.definitionParsed

/-- The row has the fields of a parsed definition. -/
structure Matches (r : Row) (d : Members) : Prop where
  slug : d.get? "id" = some (.str r.slug)
  name : d.get? "name" = some (.str r.name)
  version : d.get? "version" = some (.int r.version)
  tags : d.get? "tags" = some r.tags
  priority : ∀ v, d.get? "priority" = some v → v = .str r.priority
  timeoutSeconds : d.get? "timeout_seconds" = some (.int r.timeoutSeconds)
  minNodeMajorVersion : ∀ v, d.get? "min_node_major_version" = some v → v = .int r.minNodeMajorVersion
  assertions : d.get? "assertions" = assertionsOf r.definitionParsed

section Statement
variable (sv : Services) (csvLookup : Str → Option (Str × Str)) (text : List Char)

def Agree : Prop :=
  match createDefinition sv text, seedDefinition sv csvLookup text, parseDefinition sv.load text with
  | .ok r, .ok r', .ok d => SameFields r r' ∧ Matches r d ∧ Matches r' d
  | .error _, .error _, .error _ => True
  | _, _, _ => False

/-- An integer for the column, by `int()`. -/
def Integer (v : Yaml) : Prop := ∃ n, sv.int v = .ok n ∧ Int4 n

/-- The endpoint takes the members. -/
structure PostTakes (m : Members) : Prop where
  slug : RequiredText (slugOf m)
  slug_truthy : (slugOf m).truthy = true
  name : RequiredText (m.getD "name" (slugOf m))
  version : Integer sv (m.getD "version" (.int 1))
  tags : ∃ a, sv.array (m.getD "tags" (.seq [])).listed = .ok a
  priority : (m.getD "priority" (.text "medium")).hashable = true
  timeoutSeconds : Integer sv (m.getD "timeout_seconds" (.int 120))
  texts : ∀ name ∈ ["component", "release_introduced", "category", "phase"], NullableText (m.getD name .null)
  definitionRaw : StorableText text
  definitionParsed : ∃ d, sv.jsonb (.map m) = .ok d

/-- The seeding script takes the members. -/
structure SeedTakes (m : Members) : Prop where
  slug : ∃ v, m.get? "id" = some v ∧ RequiredText v
  name : ∃ v, m.get? "name" = some v ∧ RequiredText v
  version : Integer sv (m.getD "version" (.int 1))
  tags : ∃ a, sv.array (m.getD "tags" (.seq [])) = .ok a
  priority : ∃ s ∈ testPriority, m.getD "priority" (.text "medium") = .str s
  timeoutSeconds : Integer sv (m.getD "timeout_seconds" (.int 120))
  minNodeMajorVersion : Integer sv (m.getD "min_node_major_version" (.int 1))
  texts : ∀ name ∈ ["component", "release_introduced"], NullableText (m.getD name .null)
  categories : ∃ p c, resolveCategory csvLookup m = .ok (p, c) ∧ NullableText p ∧ NullableText c
  definitionRaw : StorableText text
  definitionParsed : ∃ d, sv.jsonb (.map (m.without "body")) = .ok d

/-- The priority that the endpoint stores. -/
def storedPriority (v : Yaml) : Str :=
  match v with
  | .str s => if s ∈ validPriorities then s else Value.key "medium"
  | _ => Value.key "medium"

/-- What is stored of the posted and of the seeded members is what the runner has of its own. -/
structure Fits (post runner seed : Members) : Prop where
  slug : ∃ s, slugOf post = .str s ∧ runner.get? "id" = some (.str s) ∧ seed.get? "id" = some (.str s)
  name : ∃ s, post.getD "name" (slugOf post) = .str s ∧ runner.get? "name" = some (.str s) ∧
    seed.get? "name" = some (.str s)
  version : ∃ n, sv.int (post.getD "version" (.int 1)) = .ok n ∧ runner.getD "version" (.int 1) = .int n ∧
    sv.int (seed.getD "version" (.int 1)) = .ok n
  tags : sv.array (post.getD "tags" (.seq [])).listed = .ok (runner.getD "tags" (.seq [])) ∧
    sv.array (seed.getD "tags" (.seq [])) = .ok (runner.getD "tags" (.seq []))
  priority : seed.getD "priority" (.text "medium") = .str (storedPriority (post.getD "priority" (.text "medium"))) ∧
    ∀ v, runner.get? "priority" = some v → v = .str (storedPriority (post.getD "priority" (.text "medium")))
  timeoutSeconds : ∃ n, sv.int (post.getD "timeout_seconds" (.int 120)) = .ok n ∧
    runner.getD "timeout_seconds" (.int 120) = .int n ∧ sv.int (seed.getD "timeout_seconds" (.int 120)) = .ok n
  minNodeMajorVersion : sv.int (seed.getD "min_node_major_version" (.int 1)) = .ok 1 ∧
    ∀ v, runner.get? "min_node_major_version" = some v → v = .int 1
  assertions : ∃ d d', sv.jsonb (.map post) = .ok d ∧ assertionsOf d = runner.get? "assertions" ∧
    sv.jsonb (.map (seed.without "body")) = .ok d' ∧ assertionsOf d' = runner.get? "assertions"

/-- The members that the three fences leave to the decoder. -/
def ReadAs (post runner seed : Members) : Prop :=
  Finds sv.load frontmatter text post ∧ Finds sv.load TestRunner.Interpreter.frontmatterRe text runner ∧
    Finds sv.load frontmatterRe text seed

/-- None of the three finds members that it takes. -/
def NoneTakes : Prop :=
  (∀ m, Finds sv.load frontmatter text m → ¬ PostTakes sv text m) ∧
    (∀ m, Finds sv.load TestRunner.Interpreter.frontmatterRe text m → missing m ≠ none) ∧
    ∀ m, Finds sv.load frontmatterRe text m → ¬ SeedTakes sv csvLookup text m

/-- Members that all three take as they are. -/
structure Plain (m : Members) : Prop where
  id : ∃ s, m.get? "id" = some (.str s) ∧ s ≠ [] ∧ storable s = true
  name : ∃ s, m.get? "name" = some (.str s) ∧ storable s = true
  version : ∃ n, m.getD "version" (.int 1) = .int n ∧ Int4 n
  tags : sv.array (m.getD "tags" (.seq [])) = .ok (m.getD "tags" (.seq []))
  priority : ∃ s ∈ testPriority, m.getD "priority" (.text "medium") = .str s
  timeoutSeconds : ∃ n, m.getD "timeout_seconds" (.int 120) = .int n ∧ Int4 n
  minNodeMajorVersion : m.getD "min_node_major_version" (.int 1) = .int 1
  assertions : ∃ v d d', m.get? "assertions" = some v ∧ sv.jsonb (.map m) = .ok d ∧ assertionsOf d = some v ∧
    sv.jsonb (.map (m.without "body")) = .ok d' ∧ assertionsOf d' = some v
  texts : ∀ name ∈ ["component", "release_introduced", "category", "phase"], NullableText (m.getD name .null)
  categories : ∃ p c, resolveCategory csvLookup m = .ok (p, c) ∧ NullableText p ∧ NullableText c
  definitionRaw : StorableText text

end Statement

/-! ### What each takes -/

section Taking
variable {sv : Services} {csvLookup : Str → Option (Str × Str)} {text : List Char} {m : Members}

theorem any_isText {names : List Str} {v : Yaml} : names.any (fun s => v.isText s) = true ↔ ∃ s ∈ names, v = .str s := by
  rw [List.any_eq_true]
  exact exists_congr fun s => and_congr_right fun _ => Yaml.isText_iff

theorem knownPriority_ok {p q : Yaml} : knownPriority p = .ok q ↔ p.hashable = true ∧ q = .str (storedPriority p) := by
  unfold knownPriority Yaml.isIn
  cases hp : p.hashable with
  | false => exact iff_of_false (by rw [if_neg (by nofun)]; nofun) fun h => by cases h.1
  | true =>
    rw [if_pos rfl]
    have hstored : (if validPriorities.any (fun s => p.isText s) = true then p else .text "medium") =
        .str (storedPriority p) := by
      cases p with
      | str s =>
        have hany : validPriorities.any (fun t => (Yaml.str s).isText t) = true ↔ s ∈ validPriorities := by
          rw [any_isText]
          exact ⟨fun ⟨t, ht, h⟩ => Yaml.str.inj h ▸ ht, fun h => ⟨s, h, rfl⟩⟩
        simp only [hany, storedPriority]
        split <;> rfl
      | _ =>
        refine if_neg fun h => ?_
        obtain ⟨_, -, h⟩ := any_isText.mp h
        cases h
    change Except.ok (if _ then _ else _) = Except.ok q ↔ _
    rw [hstored, Except.ok.injEq]
    exact ⟨fun h => ⟨rfl, h.symm⟩, fun h => h.2.symm⟩

theorem storedPriority_mem (v : Yaml) : storedPriority v ∈ testPriority := by
  unfold storedPriority
  split
  next s =>
    split
    next hs => exact hs
    next => decide
  next => decide

theorem creates_iff : (∃ row, Creates sv text m row) ↔ PostTakes sv text m := by
  constructor
  · rintro ⟨row, h⟩
    refine ⟨⟨_, h.slug⟩, h.slug_truthy, ⟨_, h.name⟩, ⟨_, h.version⟩, ⟨_, h.tags⟩, (knownPriority_ok.mp h.priority.1).1,
      ⟨_, h.timeoutSeconds⟩, ?_, ?_, ⟨_, h.definitionParsed⟩⟩
    · intro name hname
      simp only [List.mem_cons, List.not_mem_nil, or_false] at hname
      rcases hname with rfl | rfl | rfl | rfl
      · exact ⟨_, h.component⟩
      · exact ⟨_, h.releaseIntroduced⟩
      · exact ⟨_, h.category⟩
      · exact ⟨_, h.phase⟩
    · rw [h.definitionRaw.1]
      exact h.definitionRaw.2
  · intro h
    obtain ⟨slug, hslug⟩ := h.slug
    obtain ⟨name, hname⟩ := h.name
    obtain ⟨version, hversion⟩ := h.version
    obtain ⟨timeout, htimeout⟩ := h.timeoutSeconds
    obtain ⟨tags, htags⟩ := h.tags
    obtain ⟨component, hcomponent⟩ := h.texts "component" (by simp)
    obtain ⟨release, hrelease⟩ := h.texts "release_introduced" (by simp)
    obtain ⟨category, hcategory⟩ := h.texts "category" (by simp)
    obtain ⟨phase, hphase⟩ := h.texts "phase" (by simp)
    obtain ⟨parsed, hparsed⟩ := h.definitionParsed
    exact ⟨⟨slug, name, version, tags, component, _, timeout, release, text, parsed, 1, category, phase⟩,
      hslug, h.slug_truthy, hname, hversion, htags, hcomponent,
      ⟨knownPriority_ok.mpr ⟨h.priority, rfl⟩, storedPriority_mem _⟩, htimeout, hrelease, ⟨rfl, h.definitionRaw⟩, hparsed,
      rfl, hcategory, hphase⟩

theorem seeds_iff : (∃ row, Seeds sv csvLookup text m row) ↔ SeedTakes sv csvLookup text m := by
  constructor
  · rintro ⟨row, h⟩
    refine ⟨⟨_, h.slug.1, _, rfl, h.slug.2⟩, ⟨_, h.name.1, _, rfl, h.name.2⟩, ⟨_, h.version⟩, ⟨_, h.tags⟩,
      ⟨_, h.priority.2, h.priority.1⟩, ⟨_, h.timeoutSeconds⟩, ⟨_, h.minNodeMajorVersion⟩, ?_,
      ⟨_, _, h.categories.1, ⟨_, rfl, h.categories.2.2⟩, ⟨_, rfl, h.categories.2.1⟩⟩, ?_, ⟨_, h.definitionParsed⟩⟩
    · intro name hname
      simp only [List.mem_cons, List.not_mem_nil, or_false] at hname
      rcases hname with rfl | rfl
      · exact ⟨_, h.component⟩
      · exact ⟨_, h.releaseIntroduced⟩
    · rw [h.definitionRaw.1]
      exact h.definitionRaw.2
  · intro h
    obtain ⟨_, hslug, slug, rfl, hslug'⟩ := h.slug
    obtain ⟨_, hname, name, rfl, hname'⟩ := h.name
    obtain ⟨version, hversion⟩ := h.version
    obtain ⟨timeout, htimeout⟩ := h.timeoutSeconds
    obtain ⟨minNode, hminNode⟩ := h.minNodeMajorVersion
    obtain ⟨tags, htags⟩ := h.tags
    obtain ⟨priority, hpriority, hpriority'⟩ := h.priority
    obtain ⟨component, hcomponent⟩ := h.texts "component" (by simp)
    obtain ⟨release, hrelease⟩ := h.texts "release_introduced" (by simp)
    obtain ⟨_, _, hcategories, ⟨phase, rfl, hphase⟩, category, rfl, hcategory⟩ := h.categories
    obtain ⟨parsed, hparsed⟩ := h.definitionParsed
    exact ⟨⟨slug, name, version, tags, component, priority, timeout, release, text, parsed, minNode, category, phase⟩,
      ⟨hslug, hslug'⟩, ⟨hname, hname'⟩, hversion, htags, hcomponent, ⟨hpriority', hpriority⟩, htimeout, hrelease,
      ⟨rfl, h.definitionRaw⟩, hparsed, hminNode, hcategories, hcategory, hphase⟩

/-! ### What they store -/

theorem Matches.of_same {r r' : Row} {d : Members} (h : Matches r d) (hsame : SameFields r r') : Matches r' d := by
  obtain ⟨hslug, hname, hversion, htags, hpriority, htimeout, hmin, hassertions⟩ := hsame
  exact ⟨hslug ▸ h.slug, hname ▸ h.name, hversion ▸ h.version, htags ▸ h.tags, hpriority ▸ h.priority,
    htimeout ▸ h.timeoutSeconds, hmin ▸ h.minNodeMajorVersion, hassertions ▸ h.assertions⟩

variable {post runner seed : Members} {r r' : Row} {body : List Char}

theorem fits_iff (hc : Creates sv text post r) (hs : Seeds sv csvLookup text seed r') :
    (SameFields r r' ∧ Matches r (completed body runner) ∧ Matches r' (completed body runner)) ↔
      Fits sv post runner seed := by
  have hid : (completed body runner).get? "id" = runner.get? "id" := get?_completed body (by decide)
  have hname : (completed body runner).get? "name" = runner.get? "name" := get?_completed body (by decide)
  have hpriority : (completed body runner).get? "priority" = runner.get? "priority" := get?_completed body (by decide)
  have hmin : (completed body runner).get? "min_node_major_version" = runner.get? "min_node_major_version" :=
    get?_completed body (by decide)
  have hassertions : (completed body runner).get? "assertions" = runner.get? "assertions" := get?_completed body (by decide)
  have hstored : r.priority = storedPriority (post.getD "priority" (.text "medium")) :=
    Yaml.str.inj (knownPriority_ok.mp hc.priority.1).2
  constructor
  · rintro ⟨hsame, hr, hr'⟩
    have hversion := hr.version
    have htags := hr.tags
    have htimeout := hr.timeoutSeconds
    rw [version_completed] at hversion
    rw [tags_completed] at htags
    rw [timeoutSeconds_completed] at htimeout
    refine ⟨⟨r.slug, hc.slug.1, ?_, ?_⟩, ⟨r.name, hc.name.1, ?_, ?_⟩, ⟨r.version, hc.version.1, Option.some.inj hversion, ?_⟩,
      ⟨?_, ?_⟩, ⟨?_, ?_⟩, ⟨r.timeoutSeconds, hc.timeoutSeconds.1, Option.some.inj htimeout, ?_⟩, ⟨?_, ?_⟩,
      ⟨r.definitionParsed, r'.definitionParsed, hc.definitionParsed, ?_, hs.definitionParsed, ?_⟩⟩
    · exact hid.symm.trans hr.slug
    · rw [hsame.slug]
      exact hs.slug.1
    · exact hname.symm.trans hr.name
    · rw [hsame.name]
      exact hs.name.1
    · rw [hsame.version]
      exact hs.version.1
    · rw [Option.some.inj htags]
      exact hc.tags
    · rw [Option.some.inj htags, hsame.tags]
      exact hs.tags
    · rw [← hstored, hsame.priority]
      exact hs.priority.1
    · intro v hv
      rw [← hstored]
      exact hr.priority v (hpriority.trans hv)
    · rw [hsame.timeoutSeconds]
      exact hs.timeoutSeconds.1
    · have hone : r'.minNodeMajorVersion = 1 := hsame.minNodeMajorVersion.symm.trans hc.minNodeMajorVersion
      rw [hs.minNodeMajorVersion.1, hone]
    · intro v hv
      rw [← hc.minNodeMajorVersion]
      exact hr.minNodeMajorVersion v (hmin.trans hv)
    · exact hr.assertions.symm.trans hassertions
    · exact hr'.assertions.symm.trans hassertions
  · intro h
    obtain ⟨slug, hslug, hslug', hslug''⟩ := h.slug
    obtain ⟨name, hn, hn', hn''⟩ := h.name
    obtain ⟨version, hversion, hversion', hversion''⟩ := h.version
    obtain ⟨timeout, htimeout, htimeout', htimeout''⟩ := h.timeoutSeconds
    obtain ⟨d, d', hd, hd', hd'', hd'''⟩ := h.assertions
    rw [hc.slug.1] at hslug
    rw [hs.slug.1] at hslug''
    rw [hc.name.1] at hn
    rw [hs.name.1] at hn''
    rw [hc.version.1] at hversion
    rw [hs.version.1] at hversion''
    rw [hc.timeoutSeconds.1] at htimeout
    rw [hs.timeoutSeconds.1] at htimeout''
    rw [hc.definitionParsed] at hd
    rw [hs.definitionParsed] at hd''
    have htags := hc.tags.symm.trans h.tags.1
    have htags' := hs.tags.symm.trans h.tags.2
    have hpriority' := hs.priority.1.symm.trans h.priority.1
    have hmin' := hs.minNodeMajorVersion.1.symm.trans h.minNodeMajorVersion.1
    cases hslug
    cases hn
    cases hversion
    cases htimeout
    cases hd
    cases hd''
    have hsame : SameFields r r' :=
      ⟨(Yaml.str.inj (Option.some.inj hslug'')).symm, (Yaml.str.inj (Option.some.inj hn'')).symm,
        (Except.ok.inj hversion'').symm, (Except.ok.inj htags).trans (Except.ok.inj htags').symm,
        hstored.trans (Yaml.str.inj hpriority').symm, (Except.ok.inj htimeout'').symm,
        hc.minNodeMajorVersion.trans (Except.ok.inj hmin').symm, hd'.trans hd'''.symm⟩
    have hr : Matches r (completed body runner) :=
      ⟨hid.trans hslug', hname.trans hn', (version_completed body).trans (congrArg some hversion'),
        (tags_completed body).trans (congrArg some (Except.ok.inj htags).symm),
        fun v hv => by rw [hstored]; exact h.priority.2 v (hpriority.symm.trans hv),
        (timeoutSeconds_completed body).trans (congrArg some htimeout'),
        fun v hv => by rw [hc.minNodeMajorVersion]; exact h.minNodeMajorVersion.2 v (hmin.symm.trans hv),
        hassertions.trans hd'.symm⟩
    exact ⟨hsame, hr, hr.of_same hsame⟩

end Taking

/-! ### Agreement -/

section Agreement
variable {sv : Services} {csvLookup : Str → Option (Str × Str)} {text : List Char}

theorem parses_iff : (∃ d, parseDefinition sv.load text = .ok d) ↔
    ∃ m, Finds sv.load TestRunner.Interpreter.frontmatterRe text m ∧ missing m = none := by
  constructor
  · rintro ⟨d, h⟩
    obtain ⟨y, body, m, hy, hm, hmissing, -⟩ := parseDefinition_ok.mp h
    exact ⟨m, ⟨y, body, hy, hm⟩, hmissing⟩
  · rintro ⟨m, ⟨y, body, hy, hm⟩, hmissing⟩
    exact ⟨_, parseDefinition_ok.mpr ⟨y, body, m, hy, hm, hmissing, rfl⟩⟩

theorem Agree.isOk_eq (h : Agree sv csvLookup text) :
    (createDefinition sv text).isOk = (parseDefinition sv.load text).isOk ∧
      (seedDefinition sv csvLookup text).isOk = (parseDefinition sv.load text).isOk := by
  unfold Agree at h
  split at h
  next h₁ h₂ h₃ =>
    rw [h₁, h₂, h₃]
    exact ⟨rfl, rfl⟩
  next h₁ h₂ h₃ =>
    rw [h₁, h₂, h₃]
    exact ⟨rfl, rfl⟩
  next => exact h.elim

theorem agree_iff_fits : Agree sv csvLookup text ↔ NoneTakes sv csvLookup text ∨
    ∃ post runner seed, ReadAs sv text post runner seed ∧ PostTakes sv text post ∧ missing runner = none ∧
      SeedTakes sv csvLookup text seed ∧ Fits sv post runner seed := by
  unfold Agree
  constructor
  · intro h
    split at h
    next r r' d hr hr' hd =>
      obtain ⟨post, hpost, hc⟩ := createDefinition_ok.mp hr
      obtain ⟨seed, hseed, hs⟩ := seedDefinition_ok.mp hr'
      obtain ⟨y, body, runner, hy, hm, hmissing, rfl⟩ := parseDefinition_ok.mp hd
      exact .inr ⟨post, runner, seed, ⟨hpost, ⟨y, body, hy, hm⟩, hseed⟩, creates_iff.mp ⟨r, hc⟩, hmissing,
        seeds_iff.mp ⟨r', hs⟩, (fits_iff hc hs).mp h⟩
    next hr hr' hd =>
      refine .inl ⟨fun m hm htakes => ?_, fun m hm hmissing => ?_, fun m hm htakes => ?_⟩
      · obtain ⟨r, hc⟩ := creates_iff.mpr htakes
        rw [createDefinition_ok.mpr ⟨m, hm, hc⟩] at hr
        cases hr
      · obtain ⟨d, hd'⟩ := parses_iff.mpr ⟨m, hm, hmissing⟩
        rw [hd'] at hd
        cases hd
      · obtain ⟨r, hs⟩ := seeds_iff.mpr htakes
        rw [seedDefinition_ok.mpr ⟨m, hm, hs⟩] at hr'
        cases hr'
    next => exact h.elim
  · rintro (⟨hpost, hrunner, hseed⟩ | ⟨post, runner, seed, ⟨hpost, hrunner, hseed⟩, htakes, hmissing, htakes', hfits⟩)
    · cases hr : createDefinition sv text with
      | ok r =>
        obtain ⟨m, hm, hc⟩ := createDefinition_ok.mp hr
        exact absurd (creates_iff.mp ⟨r, hc⟩) (hpost m hm)
      | error e =>
        cases hr' : seedDefinition sv csvLookup text with
        | ok r' =>
          obtain ⟨m, hm, hs⟩ := seedDefinition_ok.mp hr'
          exact absurd (seeds_iff.mp ⟨r', hs⟩) (hseed m hm)
        | error e' =>
          cases hd : parseDefinition sv.load text with
          | ok d =>
            obtain ⟨m, hm, hmissing⟩ := parses_iff.mp ⟨d, hd⟩
            exact absurd hmissing (hrunner m hm)
          | error e'' => trivial
    · obtain ⟨r, hc⟩ := creates_iff.mpr htakes
      obtain ⟨r', hs⟩ := seeds_iff.mpr htakes'
      obtain ⟨y, body, hy, hm⟩ := hrunner
      rw [createDefinition_ok.mpr ⟨post, hpost, hc⟩, seedDefinition_ok.mpr ⟨seed, hseed, hs⟩,
        parseDefinition_ok.mpr ⟨y, body, runner, hy, hm, hmissing, rfl⟩]
      exact (fits_iff hc hs).mpr hfits

theorem listed_of_array (harray : ∀ s a, sv.array (.str s) ≠ .ok a) {v a : Yaml} (h : sv.array v = .ok a) : v.listed = v := by
  cases v with
  | str s => exact absurd h (harray s a)
  | _ => rfl

theorem storedPriority_str {s : Str} (hs : s ∈ testPriority) : storedPriority (.str s) = s := if_pos hs

variable {m : Members}

theorem plain_of_fits (hpost : PostTakes sv text m) (hmissing : missing m = none) (hseed : SeedTakes sv csvLookup text m)
    (hfits : Fits sv m m m) : Plain sv csvLookup text m := by
  obtain ⟨s, hslug, hid, -⟩ := hfits.slug
  obtain ⟨_, hid', _, rfl, hs⟩ := hseed.slug
  cases hid.symm.trans hid'
  obtain ⟨_, hname, name, rfl, hname'⟩ := hseed.name
  obtain ⟨version, hversion, hversion', -⟩ := hfits.version
  obtain ⟨_, hversion'', hint4⟩ := hpost.version
  cases hversion.symm.trans hversion''
  obtain ⟨timeout, htimeout, htimeout', -⟩ := hfits.timeoutSeconds
  obtain ⟨_, htimeout'', hint4'⟩ := hpost.timeoutSeconds
  cases htimeout.symm.trans htimeout''
  obtain ⟨d, d', hd, hd', hd'', hd'''⟩ := hfits.assertions
  obtain ⟨v, hv⟩ := Option.isSome_iff_exists.mp (missing_eq_none.mp hmissing "assertions" (by simp [required]))
  rw [hv] at hd' hd'''
  have htruthy := hpost.slug_truthy
  rw [hslug] at htruthy
  refine ⟨⟨s, hid, fun hnil => ?_, hs⟩, ⟨name, hname, hname'⟩, ⟨version, hversion', hint4⟩, hfits.tags.2, hseed.priority,
    ⟨timeout, htimeout', hint4'⟩, ?_, ⟨v, d, d', hv, hd, hd', hd'', hd'''⟩, hpost.texts, hseed.categories,
    hpost.definitionRaw⟩
  · rw [hnil] at htruthy
    cases htruthy
  · unfold Members.getD
    cases hmin : m.get? "min_node_major_version" with
    | none => rfl
    | some v => exact hfits.minNodeMajorVersion.2 v hmin

namespace Plain
variable (h : Plain sv csvLookup text m)
include h

theorem slugOf_eq : ∃ s, m.get? "id" = some (.str s) ∧ slugOf m = .str s ∧ (slugOf m).truthy = true ∧ storable s = true := by
  obtain ⟨s, hid, hne, hs⟩ := h.id
  have htruthy : (Yaml.str s).truthy = true := by
    cases s with
    | nil => exact absurd rfl hne
    | cons c s => rfl
  have hslug : slugOf m = .str s := by rw [slugOf, Members.getD, hid, Option.getD_some, Yaml.orElse, if_pos htruthy]
  exact ⟨s, hid, hslug, hslug ▸ htruthy, hs⟩

theorem getD_name : ∃ s, m.get? "name" = some (.str s) ∧ storable s = true ∧ ∀ default, m.getD "name" default = .str s := by
  obtain ⟨s, hname, hs⟩ := h.name
  exact ⟨s, hname, hs, fun default => by rw [Members.getD, hname, Option.getD_some]⟩

theorem missing_eq : missing m = none := by
  obtain ⟨_, hid, -⟩ := h.id
  obtain ⟨_, hname, -⟩ := h.name
  obtain ⟨_, _, _, hassertions, -⟩ := h.assertions
  refine missing_eq_none.mpr fun name hmem => ?_
  simp only [required, List.mem_cons, List.not_mem_nil, or_false] at hmem
  rcases hmem with rfl | rfl | rfl
  · rw [hid, Option.isSome_some]
  · rw [hname, Option.isSome_some]
  · rw [hassertions, Option.isSome_some]

theorem tags_listed (harray : ∀ s a, sv.array (.str s) ≠ .ok a) :
    sv.array (m.getD "tags" (.seq [])).listed = .ok (m.getD "tags" (.seq [])) := by
  rw [listed_of_array harray h.tags, h.tags]

section Driver
variable (hint : ∀ n, sv.int (.int n) = .ok n)
include hint

theorem version_eq : ∃ n, m.getD "version" (.int 1) = .int n ∧ sv.int (m.getD "version" (.int 1)) = .ok n ∧ Int4 n := by
  obtain ⟨n, hn, hint4⟩ := h.version
  exact ⟨n, hn, by rw [hn, hint], hint4⟩

theorem timeoutSeconds_eq : ∃ n, m.getD "timeout_seconds" (.int 120) = .int n ∧
    sv.int (m.getD "timeout_seconds" (.int 120)) = .ok n ∧ Int4 n := by
  obtain ⟨n, hn, hint4⟩ := h.timeoutSeconds
  exact ⟨n, hn, by rw [hn, hint], hint4⟩

theorem minNodeMajorVersion_eq : sv.int (m.getD "min_node_major_version" (.int 1)) = .ok 1 := by
  rw [h.minNodeMajorVersion, hint]

theorem seedTakes : SeedTakes sv csvLookup text m := by
  obtain ⟨s, hid, -, -, hs⟩ := h.slugOf_eq
  obtain ⟨name, hname, hname', -⟩ := h.getD_name
  obtain ⟨version, -, hversion⟩ := h.version_eq hint
  obtain ⟨timeout, -, htimeout⟩ := h.timeoutSeconds_eq hint
  obtain ⟨_, _, d, -, -, -, hd, -⟩ := h.assertions
  have htexts : ∀ name ∈ ["component", "release_introduced"], NullableText (m.getD name .null) := by
    intro name hmem
    refine h.texts name ?_
    simp only [List.mem_cons, List.not_mem_nil, or_false] at hmem ⊢
    tauto
  exact ⟨⟨_, hid, s, rfl, hs⟩, ⟨_, hname, name, rfl, hname'⟩, ⟨version, hversion⟩, ⟨_, h.tags⟩, h.priority,
    ⟨timeout, htimeout⟩, ⟨1, h.minNodeMajorVersion_eq hint, by decide⟩, htexts, h.categories, h.definitionRaw, ⟨d, hd⟩⟩

variable (harray : ∀ s a, sv.array (.str s) ≠ .ok a)
include harray

theorem postTakes : PostTakes sv text m := by
  obtain ⟨s, -, hslug, htruthy, hs⟩ := h.slugOf_eq
  obtain ⟨name, -, hname', hname⟩ := h.getD_name
  obtain ⟨version, -, hversion⟩ := h.version_eq hint
  obtain ⟨timeout, -, htimeout⟩ := h.timeoutSeconds_eq hint
  obtain ⟨priority, -, hpriority⟩ := h.priority
  obtain ⟨_, d, _, -, hd, -⟩ := h.assertions
  exact ⟨⟨s, hslug, hs⟩, htruthy, ⟨name, hname _, hname'⟩, ⟨version, hversion⟩, ⟨_, h.tags_listed harray⟩,
    by rw [hpriority]; rfl, ⟨timeout, htimeout⟩, h.texts, h.definitionRaw, ⟨d, hd⟩⟩

theorem fits : Fits sv m m m := by
  obtain ⟨s, hid, hslug, -⟩ := h.slugOf_eq
  obtain ⟨name, hname, -, hnameD⟩ := h.getD_name
  obtain ⟨version, hversion, hversion', -⟩ := h.version_eq hint
  obtain ⟨timeout, htimeout, htimeout', -⟩ := h.timeoutSeconds_eq hint
  obtain ⟨priority, hpriority, hpriority'⟩ := h.priority
  obtain ⟨v, d, d', hv, hd, hd', hd'', hd'''⟩ := h.assertions
  have hstored : storedPriority (m.getD "priority" (.text "medium")) = priority := by
    rw [hpriority', storedPriority_str hpriority]
  refine ⟨⟨s, hslug, hid, hid⟩, ⟨name, hnameD _, hname, hname⟩, ⟨version, hversion', hversion, hversion'⟩,
    ⟨h.tags_listed harray, h.tags⟩, ⟨?_, ?_⟩, ⟨timeout, htimeout', htimeout, htimeout'⟩,
    ⟨h.minNodeMajorVersion_eq hint, ?_⟩, ⟨d, d', hd, hd'.trans hv.symm, hd'', hd'''.trans hv.symm⟩⟩
  · rw [hstored, hpriority']
  · intro w hw
    rw [hstored, ← hpriority', Members.getD, hw, Option.getD_some]
  · intro w hw
    rw [← h.minNodeMajorVersion, Members.getD, hw, Option.getD_some]

end Driver

end Plain

theorem agree_of_plain (hint : ∀ n, sv.int (.int n) = .ok n) (harray : ∀ s a, sv.array (.str s) ≠ .ok a)
    (hread : ReadAs sv text m m m) (h : Plain sv csvLookup text m) : Agree sv csvLookup text :=
  agree_iff_fits.mpr (.inr ⟨m, m, m, hread, h.postTakes hint harray, h.missing_eq, h.seedTakes hint, h.fits hint harray⟩)

/-- The fences may leave different members to the decoder; those that do must fit by themselves. -/
theorem definitions_agree_iff (hint : ∀ n, sv.int (.int n) = .ok n) (harray : ∀ s a, sv.array (.str s) ≠ .ok a) :
    Agree sv csvLookup text ↔ NoneTakes sv csvLookup text ∨
      (∃ m, ReadAs sv text m m m ∧ Plain sv csvLookup text m) ∨
      ∃ post runner seed, ¬ (post = runner ∧ seed = runner) ∧ ReadAs sv text post runner seed ∧ PostTakes sv text post ∧
        missing runner = none ∧ SeedTakes sv csvLookup text seed ∧ Fits sv post runner seed := by
  constructor
  · intro h
    rcases agree_iff_fits.mp h with hnone | ⟨post, runner, seed, hread, hpost, hmissing, hseed, hfits⟩
    · exact .inl hnone
    · by_cases hsame : post = runner ∧ seed = runner
      · obtain ⟨rfl, rfl⟩ := hsame
        exact .inr (.inl ⟨_, hread, plain_of_fits hpost hmissing hseed hfits⟩)
      · exact .inr (.inr ⟨post, runner, seed, hsame, hread, hpost, hmissing, hseed, hfits⟩)
  · rintro (hnone | ⟨m, hread, h⟩ | ⟨post, runner, seed, -, hread, htakes⟩)
    · exact agree_iff_fits.mpr (.inl hnone)
    · exact agree_of_plain hint harray hread h
    · exact agree_iff_fits.mpr (.inr ⟨post, runner, seed, hread, htakes⟩)

/-- A decoder that knows two documents, and columns that take lists and anything. -/
def sampleServices : Services where
  load t :=
    if t = "id: t\nname: T".toList then .ok (.map [(.text "id", .text "t"), (.text "name", .text "T")])
    else if t = "id: t\nname: T\nassertions: []".toList then
      .ok (.map [(.text "id", .text "t"), (.text "name", .text "T"), (.text "assertions", .seq [])])
    else .error ⟨true, "unknown document"⟩
  int
    | .int n => .ok n
    | v => .error (.exception ("int() argument must be a string or a number, not '" ++ v.typeName ++ "'"))
  array
    | .null => .ok .null
    | .seq items => .ok (.seq items)
    | v => .error (.exception ("a sized iterable container expected (got type '" ++ v.typeName ++ "')"))
  jsonb v := .ok v

theorem definitions_agree_sample :
    Agree sampleServices (fun _ => none) "---\nid: t\nname: T\nassertions: []\n---\nbody\n".toList := by
  let m : Members := [(.text "id", .text "t"), (.text "name", .text "T"), (.text "assertions", .seq [])]
  have hload : sampleServices.load "id: t\nname: T\nassertions: []".toList = .ok (.map m) := rfl
  have hread : ReadAs sampleServices "---\nid: t\nname: T\nassertions: []\n---\nbody\n".toList m m m :=
    ⟨⟨_, "body\n".toList, by decide +kernel, hload⟩, ⟨_, "body\n".toList, by decide +kernel, hload⟩,
      ⟨_, "body\n".toList, by decide +kernel, hload⟩⟩
  have hraw : StorableText "---\nid: t\nname: T\nassertions: []\n---\nbody\n".toList := by
    intro c hc
    have hall : "---\nid: t\nname: T\nassertions: []\n---\nbody\n".toList.all (fun c => decide (c ≠ '\x00')) = true := by
      rw [String.toList_ofList]
      decide
    exact of_decide_eq_true (List.all_eq_true.mp hall c hc)
  have hslug : slugEntry (.text "t") = .ok none := by
    have hnone : slugCategory.find? (fun e => (Value.key e.1).isPrefixOf (Value.key "t")) = none := by decide +kernel
    change Except.ok ((slugCategory.find? fun e => (Value.key e.1).isPrefixOf (Value.key "t")).map Prod.snd) = _
    rw [hnone, Option.map_none]
  have hcategory : resolveCategory (fun _ => none) m = .ok (.null, .null) := by
    have hphase : (m.getD "phase" .null).truthy = false := rfl
    have hid : m.getD "id" (.str []) = .text "t" := rfl
    have htags : (m.getD "tags" .null).orElse (.seq []) = .seq [] := rfl
    have hids : ((m.getD "csv_ids" .null).orElse (.seq [])).listed = .seq [] := rfl
    simp only [resolveCategory, hphase, hid, htags, hids, hslug]
    rfl
  have htexts : ∀ name ∈ ["component", "release_introduced", "category", "phase"], NullableText (m.getD name .null) := by
    intro name hname
    simp only [List.mem_cons, List.not_mem_nil, or_false] at hname
    rcases hname with rfl | rfl | rfl | rfl
    · exact ⟨none, rfl, nofun⟩
    · exact ⟨none, rfl, nofun⟩
    · exact ⟨none, rfl, nofun⟩
    · exact ⟨none, rfl, nofun⟩
  have hplain : Plain sampleServices (fun _ => none) "---\nid: t\nname: T\nassertions: []\n---\nbody\n".toList m :=
    { id := ⟨Value.key "t", rfl, by decide, by decide⟩
      name := ⟨Value.key "T", rfl, by decide⟩
      version := ⟨1, rfl, by decide⟩
      tags := rfl
      priority := ⟨Value.key "medium", by decide, rfl⟩
      timeoutSeconds := ⟨120, rfl, by decide⟩
      minNodeMajorVersion := rfl
      assertions := ⟨.seq [], _, _, rfl, rfl, rfl, rfl, rfl⟩
      texts := htexts
      categories := ⟨.null, .null, hcategory, ⟨none, rfl, nofun⟩, ⟨none, rfl, nofun⟩⟩
      definitionRaw := hraw }
  rw [definitions_agree_iff]
  · exact .inr (.inl ⟨m, hread, hplain⟩)
  · exact fun _ => rfl
  · exact fun _ _ h => by cases h

/-- A definition without assertions is posted and seeded, and cannot be run. -/
theorem definitions_disagree : ¬ ∀ text, Agree sampleServices (fun _ => none) text := by
  intro h
  have hagree : ∀ text, (createDefinition sampleServices text).isOk = (parseDefinition sampleServices.load text).isOk :=
    fun text => (h text).isOk_eq.1
  have hpost : (createDefinition sampleServices "---\nid: t\nname: T\n---\nbody\n".toList).isOk = true := by
    rw [String.toList_ofList]
    decide +kernel
  have hparse : (parseDefinition sampleServices.load "---\nid: t\nname: T\n---\nbody\n".toList).isOk = false := by
    rw [String.toList_ofList]
    decide +kernel
  have hsame := hagree "---\nid: t\nname: T\n---\nbody\n".toList
  rw [hpost, hparse] at hsame
  cases hsame

/-! ### The fences leave the same members -/

/-- The mapping that a text decodes to, if it is one. -/
def mapping (load : List Char → Except LoadError Yaml) (t : List Char) : Option Members :=
  match load t with
  | .ok (.map m) => some m
  | _ => none

theorem finds_iff {fence : Fence} : Finds sv.load fence text m ↔
    ∃ y rest, fence.enclosed text = some (y, rest) ∧ mapping sv.load y = some m := by
  have hmap : ∀ y, mapping sv.load y = some m ↔ sv.load y = .ok (.map m) := by
    intro y
    unfold mapping
    split
    next hy => rw [hy, Option.some_inj, Except.ok.injEq, Yaml.map.injEq]
    next hother => exact iff_of_false (by nofun) fun hy => hother m hy
  simp only [Finds, hmap]

variable (hload : Documents "---".toList (mapping sv.load))
  (hlate : ∀ y rest, frontmatter.enclosed text = some (y, rest) → ¬ LateMark y)
include hload hlate

theorem same_of_finds {m' : Members} {e : Bool} (h : Finds sv.load frontmatter text m)
    (h' : Finds sv.load (loose "---".toList e) text m') : m = m' := by
  obtain ⟨y, rest, hy, hm⟩ := finds_iff.mp h
  obtain ⟨y', rest', hy', hm'⟩ := finds_iff.mp h'
  exact document_unique (by decide) hload hy hy' hm hm' (hlate y rest hy)

/-- Without a byte order mark inside of it, a document is agreed on just if none takes it or it is plain. -/
theorem agree_iff_plain (hint : ∀ n, sv.int (.int n) = .ok n) (harray : ∀ s a, sv.array (.str s) ≠ .ok a) :
    Agree sv csvLookup text ↔ NoneTakes sv csvLookup text ∨ ∃ m, ReadAs sv text m m m ∧ Plain sv csvLookup text m := by
  constructor
  · intro h
    rcases agree_iff_fits.mp h with hnone | ⟨post, runner, seed, hread, hpost, hmissing, hseed, hfits⟩
    · exact .inl hnone
    · have hrunner : post = runner := same_of_finds hload hlate hread.1 hread.2.1
      have hsame : post = seed := same_of_finds hload hlate hread.1 hread.2.2
      subst hrunner hsame
      exact .inr ⟨_, hread, plain_of_fits hpost hmissing hseed hfits⟩
  · rintro (hnone | ⟨m, hread, h⟩)
    · exact agree_iff_fits.mpr (.inl hnone)
    · exact agree_of_plain hint harray hread h

end Agreement

end ReleaseValidation.Orchestrator.DefinitionAgreement
