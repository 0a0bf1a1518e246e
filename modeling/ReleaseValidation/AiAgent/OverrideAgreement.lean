import ReleaseValidation.AiAgent.Overrides

/-! # The two merges of the overrides

The session's `_apply_overrides` rejects an override that has no place, the runner's own merge
skips it. What the first accepts the second applies in the same places.
-/
namespace ReleaseValidation.AiAgent.TestTrigger
open Store Programs TestRunner

variable {int : String → Option ℤ} {repr : String → String}

/-- An override that has a place is applied there. -/
theorem applyOne_of_places {items : List Json} {key leaf : String} {i : ℕ} (h : Places int items key i leaf)
    (value : Json) : Overrides.applyOne int (.arr items) (key, value) =
      .ok (.arr (items.modify i (Overrides.setLeaf leaf value))) := by
  rcases h with ⟨idx, hpath, hint, fields, hfields⟩ | ⟨hpath, rfl, howners⟩
  · have hlt : i < items.length := (List.getElem?_eq_some_iff.mp hfields).1
    have hpos : ¬ (i : ℤ) < 0 := Int.not_lt.mpr (Int.natCast_nonneg i)
    simp only [Overrides.applyOne, hpath, Overrides.applyPath, hint, if_neg hpos]
    refine except_bind_ok_iff.mpr ⟨items.length, rfl, ?_⟩
    simp only [Int.toNat_natCast, if_pos hlt]
  · simp only [Overrides.applyOne, hpath, Overrides.applyBare]
    refine except_bind_ok_iff.mpr ⟨items, rfl, ?_⟩
    simp only [howners]

theorem foldlM_of_writes {items out : List Json} {overrides : List (String × Json)}
    (h : Writes int items overrides out) :
    overrides.foldlM (Overrides.applyOne int) (.arr items) = .ok (.arr out) := by
  induction h with
  | done items => rfl
  | write hplaces _ ih =>
    rw [List.foldlM_cons, applyOne_of_places hplaces]
    exact ih

theorem Writes.ne_nil {items out : List Json} {overrides : List (String × Json)} (h : Writes int items overrides out)
    (hne : overrides ≠ []) : items ≠ [] := by
  rintro rfl
  cases h with
  | done => exact hne rfl
  | write hplaces _ =>
    obtain ⟨fields, hfields⟩ := hplaces.objectAt
    cases hfields

theorem merge_of_writes {fields : List (String × Json)} {items out : List Json} {overrides : List (String × Json)}
    (hlookup : fields.lookup "assertions" = some (.arr items)) (hne : overrides ≠ [])
    (h : Writes int items overrides out) :
    Overrides.merge int (.obj fields) overrides = .ok (.obj (setField "assertions" (.arr out) fields)) := by
  have htruthy : (Json.obj fields).truthy = true := by
    cases fields with
    | nil => cases hlookup
    | cons kv fields => rfl
  have hitems : (Json.arr items).truthy = true := by
    cases items with
    | nil => exact absurd rfl (h.ne_nil hne)
    | cons j items => rfl
  simp only [Overrides.merge, htruthy, if_true]
  refine except_bind_ok_iff.mpr ⟨.arr items, by simp [Json.get, hlookup], ?_⟩
  simp only [hitems, if_true]
  exact except_bind_ok_iff.mpr ⟨.arr out, foldlM_of_writes h, rfl⟩

/-- The definition that the runner makes of overrides that `_apply_overrides` accepts is the one it returns. -/
theorem overrides_agree {objects objects' : Objects} {r r' : ℕ} {overrides : List (String × Json)}
    (definition : Definition) (hparsed : objects[r]? = some definition.definitionParsed)
    (h : applyOverrides int repr r overrides objects = (.returned r', objects')) {override : Json}
    (hnone : override.truthy = false) :
    ∃ merged, objects'[r']? = some merged ∧ Overrides.override int definition override (.obj overrides) =
      .ok { definition with definitionParsed := merged } := by
  by_cases hne : overrides = []
  · subst hne
    cases h
    have hempty : (Json.obj []).truthy = false := rfl
    refine ⟨_, hparsed, ?_⟩
    simp only [Overrides.override, hnone, hempty, Bool.or_false, Bool.false_eq_true, if_false]
  · obtain ⟨fields, items, out, hfields, hlookup, hwrites, rfl, rfl⟩ := (applyOverrides_returned_iff hne).mp h
    have hdefinition : definition.definitionParsed = .obj fields := by
      rw [← hfields, List.getD_eq_getElem?_getD, hparsed]
      rfl
    have htruthy : (Json.obj overrides).truthy = true := by simp [Json.truthy, hne]
    refine ⟨_, List.getElem?_concat_length, ?_⟩
    simp only [Overrides.override, hnone, htruthy, Bool.false_or, if_true, hdefinition,
      merge_of_writes hlookup hne hwrites]
    rfl

theorem path_eq (key : String) : Overrides.path key =
    match (key.toList.splitOn '.').map String.ofList with
    | "assertions" :: idx :: leaf :: rest => some (idx, String.intercalate "." (leaf :: rest))
    | _ => none := by
  rw [← Splits.splitOn_char]
  rfl

/-- A definition of two assertions, with one override of each form. -/
def sampleDefinition : Json :=
  .obj [("assertions", .arr [.obj [("type", .str "notice_check"), ("min_count", .int 1)],
    .obj [("type", .str "chain_tx"), ("repeat", .int 1)]])]

def sampleOverrides : List (String × Json) := [("assertions.0.min_count", .int 2), ("repeat", .int 3)]

def sampleMerged : Json :=
  .obj [("assertions", .arr [.obj [("type", .str "notice_check"), ("min_count", .int 2)],
    .obj [("type", .str "chain_tx"), ("repeat", .int 3)]])]

/-- `int()` of the one index. -/
def sampleInt (s : String) : Option ℤ := if s = "0" then some 0 else none

theorem sample_accepted : applyOverrides sampleInt id 0 sampleOverrides [sampleDefinition] =
    (.returned 1, [sampleDefinition, sampleMerged]) := by
  have hpath : Overrides.path "assertions.0.min_count" = some ("0", "min_count") := by
    rw [path_eq]
    decide +kernel
  have hbare : Overrides.path "repeat" = none := by
    rw [path_eq]
    decide +kernel
  have hfirst : Places sampleInt [.obj [("type", .str "notice_check"), ("min_count", .int 1)],
      .obj [("type", .str "chain_tx"), ("repeat", .int 1)]] "assertions.0.min_count" 0 "min_count" :=
    Or.inl ⟨"0", hpath, rfl, _, rfl⟩
  have hsecond : Places sampleInt [.obj [("type", .str "notice_check"), ("min_count", .int 2)],
      .obj [("type", .str "chain_tx"), ("repeat", .int 1)]] "repeat" 1 "repeat" :=
    Or.inr ⟨hbare, rfl, by decide +kernel⟩
  exact (applyOverrides_returned_iff (List.cons_ne_nil _ _)).mpr
    ⟨_, _, _, rfl, rfl, .write hfirst (.write hsecond (.done _)), rfl, rfl⟩

theorem overrides_agree_sample : ∃ merged, [sampleDefinition, sampleMerged][1]? = some merged ∧
    Overrides.override sampleInt ⟨"d1", "echo", 60, sampleDefinition⟩ .null (.obj sampleOverrides) =
      .ok ⟨"d1", "echo", 60, merged⟩ :=
  overrides_agree ⟨"d1", "echo", 60, sampleDefinition⟩ rfl sample_accepted rfl

end ReleaseValidation.AiAgent.TestTrigger
