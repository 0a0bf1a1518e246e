import Mathlib.Data.List.Nodup
import Mathlib.Tactic.Tauto
import ReleaseValidation.Orchestrator.TestDispatch

/-! # The selection of a run's suite

A run may name definitions by their ids and may have filters for tags and for categories. The query
takes the first of the two filters that is given, and leaves the standalone definitions out when it
takes none; the ids are compared afterwards, in what the query has left. So a second filter
is not applied, and a standalone definition is not run even if it is asked for.
-/
namespace ReleaseValidation.Orchestrator.SuiteSelection
open Store Catalog RunTriggers TestDispatch

/-- The rows of `tests.definitions`, whose key is the id. -/
structure DefinitionTable where
  rows : List Definition
  nodup : (rows.map Definition.id).Nodup

/-- `tags && …` is true. -/
def TagsPass (d : Definition) (filter : List String) : Prop := overlaps d.tags filter = some true

def CategoryPasses (d : Definition) (filter : List String) : Prop := ∃ c ∈ d.category, c ∈ filter

def Standalone (d : Definition) : Prop := TagsPass d ["standalone"]

/-- Active, made for the version and, if there are ids, among them. -/
def Asked (d : Definition) (major : ℤ) (suiteIds : List Uuid) : Prop :=
  d.isActive = true ∧ d.minNodeMajorVersion = major ∧ (suiteIds ≠ [] → d.id ∈ suiteIds)

/-- The definitions that a run asks for. -/
structure Wanted (m : RunMetadata) (suiteIds : List Uuid) (major : ℤ) (d : Definition) : Prop where
  asked : Asked d major suiteIds
  tags : m.tagsFilter ≠ [] → TagsPass d m.tagsFilter
  category : m.categoryFilter ≠ [] → CategoryPasses d m.categoryFilter
  standalone : m.tagsFilter = [] → m.categoryFilter = [] → suiteIds = [] → ¬ Standalone d

/-- The command is the one for the definition. -/
structure IsFor (d : Definition) (c : TestCommand) : Prop where
  id : c.definitionId = d.id
  version : c.definitionVersion = d.version
  slug : c.definitionSlug = d.slug

/-- One command for each of the definitions, and no other. -/
structure Exact (rows : List Definition) (wanted : Definition → Prop) (commands : List TestCommand) : Prop where
  complete : ∀ d ∈ rows, wanted d → ∃ c ∈ commands, IsFor d c
  sound : ∀ c ∈ commands, ∃ d ∈ rows, wanted d ∧ IsFor d c
  once : (commands.map TestCommand.definitionId).Nodup

/-- The query takes a definition that is asked for exactly if it should: of two filters the second rejects
nothing that the first lets through, and without a filter the tags are known and do not keep out what has
been named by its id. -/
structure Settled (m : RunMetadata) (suiteIds : List Uuid) (d : Definition) : Prop where
  category : m.tagsFilter ≠ [] → m.categoryFilter ≠ [] → TagsPass d m.tagsFilter → CategoryPasses d m.categoryFilter
  standalone : m.tagsFilter = [] → m.categoryFilter = [] → d.tags ≠ none ∧ (suiteIds ≠ [] → ¬ Standalone d)

variable {m : RunMetadata} {suiteIds : List Uuid} {major : ℤ} {d : Definition}

/-- The definitions that the code chooses. -/
def Chosen (m : RunMetadata) (suiteIds : List Uuid) (major : ℤ) (d : Definition) : Prop :=
  d.selected major m = true ∧ (suiteIds ≠ [] → d.id ∈ suiteIds)

theorem mem_choose_iff {rows : List Definition} : d ∈ choose rows major m suiteIds ↔ d ∈ rows ∧ Chosen m suiteIds major d := by
  unfold choose Chosen
  split
  next hids => rw [List.mem_filter, List.mem_filter, and_assoc, List.contains_iff_mem, imp_iff_right hids]
  next hids => rw [List.mem_filter, and_iff_left (fun h => absurd h hids)]

theorem tagsPass_iff {filter : List String} : (overlaps d.tags filter).getD false = true ↔ TagsPass d filter := by
  unfold TagsPass
  cases overlaps d.tags filter <;> simp

theorem categoryPasses_iff {filter : List String} : d.category.any (filter.contains ·) = true ↔ CategoryPasses d filter := by
  unfold CategoryPasses
  cases d.category <;> simp

theorem not_standalone_iff :
    ((overlaps d.tags ["standalone"]).map (!·)).getD false = true ↔ d.tags ≠ none ∧ ¬ Standalone d := by
  unfold Standalone TagsPass overlaps
  cases d.tags with
  | none => simp
  | some tags =>
    rw [Option.map_some, Option.map_some, Option.getD_some]
    cases tags.any fun t => ["standalone"].contains t <;> simp only [ne_eq, reduceCtorEq, not_false_iff, Option.some.injEq,
      Bool.not_true, Bool.not_false, Bool.false_eq_true, not_true, and_self, and_false]

theorem tags_of_standalone (h : Standalone d) : d.tags ≠ none := by
  intro hnone
  rw [Standalone, TagsPass, hnone] at h
  cases h

theorem chosen_iff : Chosen m suiteIds major d ↔ Asked d major suiteIds ∧ d.passes m = true := by
  unfold Chosen Asked Definition.selected
  rw [Bool.and_eq_true, Bool.and_eq_true, beq_iff_eq]
  tauto

theorem wanted_iff : Wanted m suiteIds major d ↔ Asked d major suiteIds ∧
    (m.tagsFilter ≠ [] → TagsPass d m.tagsFilter) ∧ (m.categoryFilter ≠ [] → CategoryPasses d m.categoryFilter) ∧
      (m.tagsFilter = [] → m.categoryFilter = [] → suiteIds = [] → ¬ Standalone d) :=
  ⟨fun h => ⟨h.asked, h.tags, h.category, h.standalone⟩, fun ⟨ha, ht, hc, hs⟩ => ⟨ha, ht, hc, hs⟩⟩

theorem settled_iff : Settled m suiteIds d ↔
    (m.tagsFilter ≠ [] → m.categoryFilter ≠ [] → TagsPass d m.tagsFilter → CategoryPasses d m.categoryFilter) ∧
      (m.tagsFilter = [] → m.categoryFilter = [] → d.tags ≠ none ∧ (suiteIds ≠ [] → ¬ Standalone d)) :=
  ⟨fun h => ⟨h.category, h.standalone⟩, fun ⟨hc, hs⟩ => ⟨hc, hs⟩⟩

/-- The code and the run agree on a definition exactly if it is settled, or is not asked for. -/
theorem agree_iff : (Chosen m suiteIds major d ↔ Wanted m suiteIds major d) ↔
    (Asked d major suiteIds → Settled m suiteIds d) := by
  rw [chosen_iff, wanted_iff, settled_iff]
  by_cases hasked : Asked d major suiteIds
  · simp only [hasked, true_and, true_imp_iff, Definition.passes]
    by_cases htags : m.tagsFilter = []
    · by_cases hcategory : m.categoryFilter = []
      · simp only [htags, hcategory, ne_eq, not_true, if_false, false_imp_iff, true_imp_iff, true_and, not_standalone_iff]
        have hknown : Standalone d → d.tags ≠ none := tags_of_standalone
        tauto
      · simp only [htags, hcategory, ne_eq, not_true, not_false_iff, if_false, if_true, false_imp_iff, true_imp_iff, true_and,
          and_true, categoryPasses_iff]
    · simp only [htags, ne_eq, not_false_iff, if_true, false_imp_iff, true_imp_iff, and_true, tagsPass_iff]
      tauto
  · exact iff_of_true (iff_of_false (fun h => hasked h.1) fun h => hasked h.1) fun h => absurd h hasked

/-- The commands for what is chosen are exact when that is what is wanted. -/
theorem exact_chosen_iff (table : DefinitionTable) {wanted : Definition → Prop} {command : Definition → TestCommand}
    (hcommand : ∀ d, IsFor d (command d)) :
    Exact table.rows wanted ((choose table.rows major m suiteIds).map command) ↔
      ∀ d ∈ table.rows, Chosen m suiteIds major d ↔ wanted d := by
  have hids : ∀ d ∈ table.rows, ∀ d' ∈ table.rows, d.id = d'.id → d = d' := fun d hd d' hd' =>
    List.inj_on_of_nodup_map table.nodup hd hd'
  constructor
  · intro h d hd
    constructor
    · intro hchosen
      obtain ⟨d', hd', hwanted, hfor⟩ := h.sound _ (List.mem_map_of_mem (mem_choose_iff.mpr ⟨hd, hchosen⟩))
      have heq : d = d' := hids d hd d' hd' ((hcommand d).id.symm.trans hfor.id)
      rwa [heq]
    · intro hwanted
      obtain ⟨c, hc, hfor⟩ := h.complete d hd hwanted
      obtain ⟨d', hd', rfl⟩ := List.mem_map.mp hc
      obtain ⟨hmem, hchosen⟩ := mem_choose_iff.mp hd'
      have heq : d' = d := hids d' hmem d hd ((hcommand d').id.symm.trans hfor.id)
      rwa [← heq]
  · intro h
    refine ⟨?_, ?_, ?_⟩
    · intro d hd hwanted
      exact ⟨_, List.mem_map_of_mem (mem_choose_iff.mpr ⟨hd, (h d hd).mpr hwanted⟩), hcommand d⟩
    · intro c hc
      obtain ⟨d, hd, rfl⟩ := List.mem_map.mp hc
      obtain ⟨hmem, hchosen⟩ := mem_choose_iff.mp hd
      exact ⟨d, hmem, (h d hmem).mp hchosen, hcommand d⟩
    · have hsub : (choose table.rows major m suiteIds).Sublist table.rows := by
        unfold choose
        split
        next => exact (List.filter_sublist).trans List.filter_sublist
        next => exact List.filter_sublist
      have hnames : ((choose table.rows major m suiteIds).map command).map TestCommand.definitionId =
          (choose table.rows major m suiteIds).map Definition.id := by
        rw [List.map_map]
        exact List.map_congr_left fun d _ => (hcommand d).id
      rw [hnames]
      exact table.nodup.sublist (hsub.map _)

theorem exact_nil_iff {rows : List Definition} {wanted : Definition → Prop} :
    Exact rows wanted [] ↔ ∀ d ∈ rows, ¬ wanted d := by
  constructor
  · intro h d hd hwanted
    obtain ⟨c, hc, -⟩ := h.complete d hd hwanted
    cases hc
  · intro h
    exact ⟨fun d hd hwanted => absurd hwanted (h d hd), nofun, List.nodup_nil⟩

/-- The commands of a run are those for the definitions that it wants. -/
def SelectsExactly (db : Db) (table : DefinitionTable) (run : StoredRun) (runId : ℕ) (sandboxId : Uuid)
    (msg : SandboxMessage) : Prop :=
  Exact table.rows (Wanted run.meta run.suiteIds (recordedMajor (db .release run.releaseTag)))
    (dispatchTests db table.rows (some run) runId sandboxId msg).commands

/-- A run's commands are exact when each definition it asks for is settled; a run for a session alone, which has no
commands, when it wants none. -/
theorem selection_exact_iff (db : Db) (table : DefinitionTable) (run : StoredRun) (runId : ℕ) (sandboxId : Uuid)
    (msg : SandboxMessage) : SelectsExactly db table run runId sandboxId msg ↔
      if run.meta.aiSession = true then
        ∀ d ∈ table.rows, ¬ Wanted run.meta run.suiteIds (recordedMajor (db .release run.releaseTag)) d
      else
        ∀ d ∈ table.rows, Asked d (recordedMajor (db .release run.releaseTag)) run.suiteIds → Settled run.meta run.suiteIds d := by
  unfold SelectsExactly
  cases hai : run.meta.aiSession with
  | true =>
    rw [if_pos rfl, dispatch_skipped db table.rows runId sandboxId msg hai]
    exact exact_nil_iff
  | false =>
    obtain ⟨appAddress, hpublished⟩ := dispatch_published db table.rows runId sandboxId msg hai
    rw [if_neg (by decide), hpublished]
    refine (exact_chosen_iff table fun d => ⟨rfl, rfl, rfl⟩).trans ?_
    exact forall₂_congr fun d _ => agree_iff

/-! ### Two filters, and a standalone definition by its id -/

def restartClaimer : Definition :=
  ⟨"1", "restart-claimer-clean-v2", 1, some ["restart", "standalone"], some "Restarts", true, 2⟩

def restartTable : DefinitionTable := ⟨[restartClaimer], List.nodup_singleton _⟩

def nodeTwo : Db
  | .release, "v2.0.0" => some ⟨none, some 2⟩
  | _, _ => none

def bothFilters : StoredRun := ⟨"v2.0.0", [], none, some ⟨["restart"], ["Vouchers"], false, none⟩⟩
def namedSuite : StoredRun := ⟨"v2.0.0", ["1"], none, none⟩

/-- A definition is run in spite of the second filter, and one that is named is not run. -/
theorem suite_not_exact :
    ¬ SelectsExactly nodeTwo restartTable bothFilters 0 "sandbox" [] ∧
      ¬ SelectsExactly nodeTwo restartTable namedSuite 0 "sandbox" [] := by
  have hmajor : recordedMajor (nodeTwo .release "v2.0.0") = 2 := by decide
  constructor
  · intro h
    have hchosen : choose restartTable.rows 2 bothFilters.meta bothFilters.suiteIds = [restartClaimer] := by decide
    have hrun : bothFilters.meta.aiSession = false := rfl
    obtain ⟨appAddress, hpublished⟩ := dispatch_published nodeTwo restartTable.rows 0 "sandbox" [] hrun
    rw [SelectsExactly, hpublished] at h
    change Exact _ _ ((choose restartTable.rows (recordedMajor (nodeTwo .release "v2.0.0")) _ _).map _) at h
    rw [hmajor, hchosen] at h
    obtain ⟨d, hd, hwanted, -⟩ := h.sound _ List.mem_cons_self
    cases List.mem_singleton.mp hd
    obtain ⟨c, hc, hfilter⟩ := hwanted.category (by decide)
    cases hc
    exact absurd hfilter (by decide)
  · intro h
    have hnone : choose restartTable.rows 2 namedSuite.meta namedSuite.suiteIds = [] := by decide
    have hrun : namedSuite.meta.aiSession = false := rfl
    obtain ⟨appAddress, hpublished⟩ := dispatch_published nodeTwo restartTable.rows 0 "sandbox" [] hrun
    rw [SelectsExactly, hpublished] at h
    change Exact _ _ ((choose restartTable.rows (recordedMajor (nodeTwo .release "v2.0.0")) _ _).map _) at h
    rw [hmajor, hnone] at h
    have hwanted : Wanted namedSuite.meta namedSuite.suiteIds (recordedMajor (nodeTwo .release "v2.0.0")) restartClaimer :=
      ⟨⟨rfl, hmajor.symm, fun _ => List.mem_singleton_self _⟩, fun ht => absurd rfl ht, fun hc => absurd rfl hc,
        fun _ _ hids => by cases hids⟩
    obtain ⟨c, hc, -⟩ := h.complete restartClaimer List.mem_cons_self hwanted
    cases hc

end ReleaseValidation.Orchestrator.SuiteSelection
