import ReleaseValidation.AiAgent.OverrideAgreement

/-! # What the overrides leave of a definition

A bare key has its place at a leaf that an assertion has. A path has its place at any leaf of
an assertion, also at one that is not there and at its type. The overrides tune a definition
when every key names a leaf that the definition has, and the last value given to a leaf has
the shape of the old one.
-/
namespace ReleaseValidation.AiAgent.TestTrigger
open Store Programs TestRunner Json

variable {int : String → Option ℤ} {repr : String → String}

def assertionsOf : Json → List Json
  | .obj fields =>
    match fields.lookup "assertions" with
    | some (.arr items) => items
    | _ => []
  | _ => []

def leafOf (items : List Json) (i : ℕ) (leaf : String) : Option Json := items[i]?.bind fun j => j.child (.key leaf)

def leafPosition (i : ℕ) (leaf : String) : List Part := [.key "assertions", .index i, .key leaf]

/-- The leaf of the definition's assertions that an override is for. -/
def Named (int : String → Option ℤ) (items : List Json) (overrides : List (String × Json)) (i : ℕ) (leaf : String) :
    Prop :=
  ∃ kv ∈ overrides, Places int items kv.1 i leaf

/-- Only the parameters of the assertions differ. -/
structure Retuned (int : String → Option ℤ) (overrides : List (String × Json)) (d r : Json) : Prop where
  count : (assertionsOf r).length = (assertionsOf d).length
  types : ∀ i, r.locate (leafPosition i "type") = d.locate (leafPosition i "type")
  shaped : Shaped d r
  others : ∀ ps, (∀ i leaf, Named int (assertionsOf d) overrides i leaf →
    ¬ leafPosition i leaf <+: ps ∧ ¬ ps <+: leafPosition i leaf) → r.locate ps = d.locate ps

/-- The value of the last override whose key satisfies `P`. -/
def Last (P : String → Prop) (overrides : List (String × Json)) (value : Json) : Prop :=
  ∃ earlier key later, overrides = earlier ++ (key, value) :: later ∧ P key ∧ ∀ kv ∈ later, ¬ P kv.1

structure Tunes (int : String → Option ℤ) (items : List Json) (overrides : List (String × Json)) : Prop where
  named : ∀ kv ∈ overrides, ∃ i leaf, Places int items kv.1 i leaf ∧ HasLeaf items i leaf
  values : ∀ i leaf old value, leafOf items i leaf = some old →
    Last (fun key => Places int items key i leaf) overrides value → Shaped old value ∧ (leaf = "type" → value = old)

theorem hasLeaf_iff_leafOf {items : List Json} {i : ℕ} {leaf : String} :
    HasLeaf items i leaf ↔ (leafOf items i leaf).isSome = true := by
  unfold HasLeaf leafOf
  cases items[i]? with
  | none => simp
  | some j => cases j <;> simp [owns, child]

theorem last_cons {P : String → Prop} {key : String} {value v : Json} {overrides : List (String × Json)} :
    Last P ((key, value) :: overrides) v ↔
      Last P overrides v ∨ P key ∧ v = value ∧ ∀ kv ∈ overrides, ¬ P kv.1 := by
  constructor
  · rintro ⟨earlier, key', later, he, hP, hlater⟩
    rcases List.cons_eq_append_iff.mp he with ⟨rfl, he⟩ | ⟨earlier', rfl, htail⟩
    · cases he
      exact Or.inr ⟨hP, rfl, hlater⟩
    · exact Or.inl ⟨earlier', key', later, htail, hP, hlater⟩
  · rintro (⟨earlier, key', later, rfl, hP, hlater⟩ | ⟨hP, rfl, hlater⟩)
    · exact ⟨(key, value) :: earlier, key', later, rfl, hP, hlater⟩
    · exact ⟨[], key, overrides, rfl, hP, hlater⟩

theorem Last.unique {P : String → Prop} {overrides : List (String × Json)} {v w : Json} (hv : Last P overrides v)
    (hw : Last P overrides w) : v = w := by
  induction overrides with
  | nil =>
    obtain ⟨earlier, key, later, he, -⟩ := hv
    cases (List.append_eq_nil_iff.mp he.symm).2
  | cons kv overrides ih =>
    have hlater : ∀ u, Last P overrides u → ¬ ∀ kv ∈ overrides, ¬ P kv.1 := by
      rintro u ⟨earlier, key, later, rfl, hP, -⟩ hnone
      exact hnone _ (List.mem_append_right _ List.mem_cons_self) hP
    rcases last_cons.mp hv with hv | ⟨-, rfl, hnone⟩
    · rcases last_cons.mp hw with hw | ⟨-, rfl, hnone⟩
      · exact ih hv hw
      · exact absurd hnone (hlater _ hv)
    · rcases last_cons.mp hw with hw | ⟨-, rfl, -⟩
      · exact absurd hnone (hlater _ hw)
      · rfl

theorem Last.mem {P : String → Prop} {overrides : List (String × Json)} {v : Json} (h : Last P overrides v) :
    ∃ kv ∈ overrides, P kv.1 := by
  obtain ⟨earlier, key, later, rfl, hP, -⟩ := h
  exact ⟨_, List.mem_append_right _ List.mem_cons_self, hP⟩

/-! ### One write -/

section Write
variable {items : List Json} {i j : ℕ} {leaf l : String} {value : Json}

theorem getElem?_write (items : List Json) (i j : ℕ) (leaf : String) (value : Json) :
    (items.modify i (Overrides.setLeaf leaf value))[j]? =
      if i = j then items[j]?.map (Overrides.setLeaf leaf value) else items[j]? := by
  rw [List.getElem?_modify]
  split
  next => rfl
  next => simp

theorem objectAt_write : ObjectAt (items.modify i (Overrides.setLeaf leaf value)) j ↔ ObjectAt items j := by
  unfold ObjectAt
  rw [getElem?_write]
  split
  next =>
    cases items[j]? with
    | none => simp
    | some a => cases a <;> simp [Overrides.setLeaf]
  next => rfl

theorem getElem?_write_of_not (h : ¬ ObjectAt items j) :
    (items.modify i (Overrides.setLeaf leaf value))[j]? = items[j]? := by
  rw [getElem?_write]
  split
  next =>
    cases ha : items[j]? with
    | none => rfl
    | some a =>
      cases a with
      | obj fields => exact absurd ⟨fields, ha⟩ h
      | null | bool | int | float | str | arr => rfl
  next => rfl

theorem leafOf_write (h : ObjectAt items i) : leafOf (items.modify i (Overrides.setLeaf leaf value)) j l =
    if i = j ∧ l = leaf then some value else leafOf items j l := by
  obtain ⟨fields, hfields⟩ := h
  unfold leafOf
  rw [getElem?_write]
  by_cases hj : i = j
  · subst hj
    simp only [hfields, if_true, true_and, Option.map_some, Option.bind_some, Overrides.setLeaf, child, lookup_setField]
  · simp [hj]

end Write

/-! ### All of them -/

/-- The assertions have the same leaves, and the same places for every key. -/
structure SameLeaves (items out : List Json) : Prop where
  length : out.length = items.length
  objectAt : ∀ i, ObjectAt out i ↔ ObjectAt items i
  hasLeaf : ∀ i leaf, HasLeaf out i leaf ↔ HasLeaf items i leaf

/-- The assertions have no less leaves. -/
structure Grown (items out : List Json) : Prop where
  length : out.length = items.length
  objectAt : ∀ i, ObjectAt out i ↔ ObjectAt items i
  others : ∀ i, ¬ ObjectAt items i → out[i]? = items[i]?
  hasLeaf : ∀ i leaf, HasLeaf items i leaf → HasLeaf out i leaf

section Writes
variable {items mid out : List Json} {overrides : List (String × Json)} {i : ℕ} {key leaf : String} {value : Json}

theorem Grown.refl (items : List Json) : Grown items items := ⟨rfl, fun _ => Iff.rfl, fun _ _ => rfl, fun _ _ => id⟩

theorem Grown.trans (h : Grown items mid) (h' : Grown mid out) : Grown items out where
  length := h'.length.trans h.length
  objectAt i := (h'.objectAt i).trans (h.objectAt i)
  others i hi := (h'.others i fun hmid => hi ((h.objectAt i).mp hmid)).trans (h.others i hi)
  hasLeaf i leaf hi := h'.hasLeaf i leaf (h.hasLeaf i leaf hi)

theorem grown_write (hi : ObjectAt items i) (leaf : String) (value : Json) :
    Grown items (items.modify i (Overrides.setLeaf leaf value)) where
  length := List.length_modify ..
  objectAt _ := objectAt_write
  others _ := getElem?_write_of_not
  hasLeaf j l hj := by
    rw [hasLeaf_iff_leafOf, leafOf_write hi]
    split
    next => rfl
    next => exact hasLeaf_iff_leafOf.mp hj

theorem hasLeaf_write (hi : ObjectAt items i) : HasLeaf (items.modify i (Overrides.setLeaf leaf value)) i leaf := by
  rw [hasLeaf_iff_leafOf, leafOf_write hi, if_pos ⟨rfl, rfl⟩]
  rfl

theorem Writes.grown (h : Writes int items overrides out) : Grown items out := by
  induction h with
  | done items => exact .refl items
  | write hplaces _ ih => exact (grown_write hplaces.objectAt _ _).trans ih

/-- What lies between assertions and others that have no more leaves has the same leaves. -/
theorem Grown.sameLeaves (h : Grown items mid) (h' : Grown mid out)
    (hout : ∀ i leaf, HasLeaf out i leaf → HasLeaf items i leaf) : SameLeaves items mid :=
  ⟨h.length, h.objectAt, fun i leaf => ⟨fun hi => hout i leaf (h'.hasLeaf i leaf hi), h.hasLeaf i leaf⟩⟩

theorem SameLeaves.owners (h : SameLeaves items mid) (key : String) :
    Overrides.owners key mid = Overrides.owners key items := by
  unfold Overrides.owners
  split
  next => rfl
  next =>
    rw [h.length]
    exact List.filter_congr fun i _ => Bool.eq_iff_iff.mpr (h.hasLeaf i key)

theorem SameLeaves.places (h : SameLeaves items mid) : Places int mid key i leaf ↔ Places int items key i leaf := by
  unfold Places
  rw [h.owners, h.objectAt]

theorem Places.unique {i' : ℕ} {leaf' : String} (h : Places int items key i leaf) (h' : Places int items key i' leaf') :
    i' = i ∧ leaf' = leaf := by
  rcases h with ⟨idx, hpath, hint, -⟩ | ⟨hpath, rfl, howners⟩
  · rcases h' with ⟨idx', hpath', hint', -⟩ | ⟨hpath', -⟩
    · cases hpath.symm.trans hpath'
      exact ⟨Int.ofNat.inj (Option.some.inj (hint'.symm.trans hint)), rfl⟩
    · cases hpath.symm.trans hpath'
  · rcases h' with ⟨idx', hpath', -⟩ | ⟨-, rfl, howners'⟩
    · cases hpath.symm.trans hpath'
    · exact ⟨(List.cons.inj (howners'.symm.trans howners)).1, rfl⟩

/-- The assertions keep their leaves when every key names one of them. -/
theorem Writes.sameLeaves (h : Writes int items overrides out)
    (hnamed : ∀ kv ∈ overrides, ∃ i leaf, Places int items kv.1 i leaf ∧ HasLeaf items i leaf) :
    SameLeaves items out := by
  induction h with
  | done items => exact ⟨rfl, fun _ => Iff.rfl, fun _ _ => Iff.rfl⟩
  | @write items key value i leaf overrides out hplaces _ ih =>
    have hleaf : HasLeaf items i leaf := by
      obtain ⟨i', leaf', hplaces', hleaf'⟩ := hnamed _ List.mem_cons_self
      obtain ⟨rfl, rfl⟩ := hplaces.unique hplaces'
      exact hleaf'
    have hsame : SameLeaves items (items.modify i (Overrides.setLeaf leaf value)) := by
      refine ⟨List.length_modify .., fun _ => objectAt_write, fun j l => ?_⟩
      rw [hasLeaf_iff_leafOf, leafOf_write hplaces.objectAt, hasLeaf_iff_leafOf]
      split
      next he =>
        obtain ⟨rfl, rfl⟩ := he
        exact iff_of_true rfl (hasLeaf_iff_leafOf.mp hleaf)
      next => rfl
    have hrest := ih fun kv hkv => by
      obtain ⟨j, l, hj, hl⟩ := hnamed kv (List.mem_cons_of_mem _ hkv)
      exact ⟨j, l, hsame.places.mpr hj, (hsame.hasLeaf j l).mpr hl⟩
    exact ⟨hrest.length.trans hsame.length, fun j => (hrest.objectAt j).trans (hsame.objectAt j),
      fun j l => (hrest.hasLeaf j l).trans (hsame.hasLeaf j l)⟩

/-- When no leaf is new, every key names a leaf, a leaf has the last value given to it, and an assertion
that no key is for is what it was. -/
theorem Writes.values (h : Writes int items overrides out)
    (hout : ∀ i leaf, HasLeaf out i leaf → HasLeaf items i leaf) :
    (∀ kv ∈ overrides, ∃ i leaf, Places int items kv.1 i leaf ∧ HasLeaf items i leaf) ∧
      (∀ i leaf, (∃ value, Last (fun key => Places int items key i leaf) overrides value ∧
          leafOf out i leaf = some value) ∨
        (∀ kv ∈ overrides, ¬ Places int items kv.1 i leaf) ∧ leafOf out i leaf = leafOf items i leaf) ∧
      ∀ i, (∀ leaf, ∀ kv ∈ overrides, ¬ Places int items kv.1 i leaf) → out[i]? = items[i]? := by
  induction h with
  | done items =>
    exact ⟨fun _ hkv => absurd hkv List.not_mem_nil,
      fun i leaf => Or.inr ⟨fun _ hkv => absurd hkv List.not_mem_nil, rfl⟩, fun _ _ => rfl⟩
  | @write items key value i leaf overrides out hplaces hwrites ih =>
    have hstep := grown_write hplaces.objectAt leaf value
    have hsame := hstep.sameLeaves hwrites.grown hout
    obtain ⟨hnamed, hvalues, hframe⟩ := ih fun j l hj => (hsame.hasLeaf j l).mpr (hout j l hj)
    simp only [hsame.places, hsame.hasLeaf] at hnamed hvalues hframe
    refine ⟨?_, fun j l => ?_, fun j hj => ?_⟩
    · rw [List.forall_mem_cons]
      exact ⟨⟨i, leaf, hplaces, (hsame.hasLeaf i leaf).mp (hasLeaf_write hplaces.objectAt)⟩, hnamed⟩
    · simp only [last_cons, List.forall_mem_cons]
      rcases hvalues j l with ⟨v, hlast, hv⟩ | ⟨hnone, hv⟩
      · exact Or.inl ⟨v, Or.inl hlast, hv⟩
      · rw [leafOf_write hplaces.objectAt] at hv
        by_cases he : i = j ∧ l = leaf
        · obtain ⟨rfl, rfl⟩ := he
          rw [if_pos ⟨rfl, rfl⟩] at hv
          exact Or.inl ⟨value, Or.inr ⟨hplaces, rfl, hnone⟩, hv⟩
        · rw [if_neg he] at hv
          refine Or.inr ⟨⟨fun hj => he ?_, hnone⟩, hv⟩
          obtain ⟨rfl, rfl⟩ := hplaces.unique hj
          exact ⟨rfl, rfl⟩
    · have hne : i ≠ j := by
        rintro rfl
        exact hj leaf _ List.mem_cons_self hplaces
      rw [hframe j fun l kv hkv => hj l kv (List.mem_cons_of_mem _ hkv), getElem?_write, if_neg hne]

end Writes

/-! ### The definition around the assertions -/

section Definition
variable {fields : List (String × Json)} {items out : List Json} {overrides : List (String × Json)}

/-- The definition with other assertions. -/
def withAssertions (fields : List (String × Json)) (out : List Json) : Json :=
  .obj (setField "assertions" (.arr out) fields)

theorem assertionsOf_obj (h : fields.lookup "assertions" = some (.arr items)) : assertionsOf (.obj fields) = items := by
  simp [assertionsOf, h]

theorem assertionsOf_withAssertions : assertionsOf (withAssertions fields out) = out :=
  assertionsOf_obj ((lookup_setField _ _ _ _).trans (if_pos rfl))

theorem locate_withAssertions (k : String) (ps : List Part) : (withAssertions fields out).locate (.key k :: ps) =
    if k = "assertions" then (Json.arr out).locate ps else (Json.obj fields).locate (.key k :: ps) := by
  rw [withAssertions, locate_cons, locate_cons, child, child, lookup_setField]
  split
  next => rfl
  next => rfl

theorem locate_obj_assertions (h : fields.lookup "assertions" = some (.arr items)) (ps : List Part) :
    (Json.obj fields).locate (.key "assertions" :: ps) = (Json.arr items).locate ps := by
  rw [locate_cons, child, h, Option.bind_some]

theorem locate_leaf (items : List Json) (i : ℕ) (leaf : String) (ps : List Part) :
    (Json.arr items).locate (.index i :: .key leaf :: ps) = (leafOf items i leaf).bind fun j => j.locate ps := by
  rw [locate_cons, child, leafOf, Option.bind_assoc]
  rfl

theorem locate_leafPosition (h : fields.lookup "assertions" = some (.arr items)) (i : ℕ) (leaf : String) :
    (Json.obj fields).locate (leafPosition i leaf) = leafOf items i leaf := by
  rw [leafPosition, locate_obj_assertions h, locate_leaf]
  exact Option.bind_fun_some _

/-- An object among the new assertions stands where one with the same leaves stood. -/
theorem sameKeys_of_hasLeaf {i : ℕ} {xs ys : List (String × Json)} (hx : items[i]? = some (.obj xs))
    (hy : out[i]? = some (.obj ys)) : SameKeys xs ys ↔ ∀ leaf, HasLeaf out i leaf ↔ HasLeaf items i leaf := by
  unfold SameKeys HasLeaf
  simp only [hx, hy, Option.map_some, Option.getD_some, owns, Bool.eq_iff_iff (b := Option.isSome _), iff_comm]

/-- What tuning means for the assertions: no leaf is new, and each has the shape that it had. -/
theorem tunes_of_retuned (hlookup : fields.lookup "assertions" = some (.arr items))
    (h : Writes int items overrides out) (hr : Retuned int overrides (.obj fields) (withAssertions fields out)) :
    Tunes int items overrides := by
  have hset : (setField "assertions" (.arr out) fields).lookup "assertions" = some (.arr out) :=
    (lookup_setField _ _ _ _).trans (if_pos rfl)
  have hout : ∀ i leaf, HasLeaf out i leaf → HasLeaf items i leaf := by
    intro i leaf hi
    obtain ⟨ys, hys, hleaf⟩ := hasLeaf_iff.mp hi
    have hafter : (withAssertions fields out).locate [.key "assertions", .index i] = some (.obj ys) := by
      rw [withAssertions, locate_obj_assertions hset, locate_cons, child, hys]
      rfl
    obtain ⟨xs, hbefore, hkeys⟩ := hr.shaped _ _ hafter
    rw [locate_obj_assertions hlookup, locate_cons, child] at hbefore
    have hxs : items[i]? = some (.obj xs) := by
      rw [← hbefore]
      exact (Option.bind_fun_some _).symm
    exact hasLeaf_iff.mpr ⟨xs, hxs, (hkeys leaf).trans hleaf⟩
  obtain ⟨hnamed, hvalues, -⟩ := h.values hout
  refine ⟨hnamed, fun i leaf old value hold hlast => ?_⟩
  have hvalue : leafOf out i leaf = some value := by
    rcases hvalues i leaf with ⟨v, hlast', hv⟩ | ⟨hnone, -⟩
    · rw [hv, hlast'.unique hlast]
    · obtain ⟨kv, hkv, hplaces⟩ := hlast.mem
      exact absurd hplaces (hnone kv hkv)
  have hbefore : (Json.obj fields).locate (leafPosition i leaf) = some old :=
    (locate_leafPosition hlookup i leaf).trans hold
  have hafter : (withAssertions fields out).locate (leafPosition i leaf) = some value :=
    (locate_leafPosition hset i leaf).trans hvalue
  refine ⟨hr.shaped.locate hbefore hafter, ?_⟩
  rintro rfl
  have htype := hr.types i
  rw [hafter, hbefore] at htype
  exact Option.some.inj htype

/-- A position leads to the same in both definitions, to something that holds assertions or an assertion, or
into a leaf of one. -/
theorem locate_cases (hlookup : fields.lookup "assertions" = some (.arr items)) (hgrown : Grown items out)
    (ps : List Part) : (withAssertions fields out).locate ps = (Json.obj fields).locate ps ∨ ps = [] ∨
      ps = [.key "assertions"] ∨ (∃ i, ps = [.key "assertions", .index i] ∧ ObjectAt items i) ∨
      ∃ i leaf qs, ps = leafPosition i leaf ++ qs := by
  match ps with
  | [] => exact Or.inr (Or.inl rfl)
  | .index i :: ps => exact Or.inl rfl
  | .key k :: ps =>
    by_cases hk : k = "assertions"
    · subst hk
      have hassertions : (withAssertions fields out).locate (.key "assertions" :: ps) = (Json.arr out).locate ps :=
        (locate_withAssertions _ _).trans (if_pos rfl)
      match ps with
      | [] => exact Or.inr (Or.inr (Or.inl rfl))
      | .key k :: ps =>
        left
        rw [hassertions, locate_obj_assertions hlookup]
        rfl
      | .index i :: ps =>
        by_cases hobject : ObjectAt items i
        · obtain ⟨xs, hxs⟩ := hobject
          obtain ⟨ys, hys⟩ := (hgrown.objectAt i).mpr ⟨xs, hxs⟩
          match ps with
          | [] => exact Or.inr (Or.inr (Or.inr (Or.inl ⟨i, rfl, xs, hxs⟩)))
          | .key leaf :: ps => exact Or.inr (Or.inr (Or.inr (Or.inr ⟨i, leaf, ps, rfl⟩)))
          | .index j :: ps =>
            left
            rw [hassertions, locate_obj_assertions hlookup, locate_cons, locate_cons, child, child, hxs, hys]
            rfl
        · left
          rw [hassertions, locate_obj_assertions hlookup, locate_cons, locate_cons, child, child,
            hgrown.others i hobject]
    · exact Or.inl ((locate_withAssertions k ps).trans (if_neg hk))

/-- The leaves of tuned assertions are what they were, or have a value of the shape that they had. -/
theorem leaf_of_tunes (h : Writes int items overrides out) (ht : Tunes int items overrides) (i : ℕ) (leaf : String) :
    leafOf out i leaf = leafOf items i leaf ∨ ∃ old value, leafOf items i leaf = some old ∧
      leafOf out i leaf = some value ∧ Shaped old value ∧ (leaf = "type" → value = old) := by
  have hsame := h.sameLeaves ht.named
  obtain ⟨-, hvalues, -⟩ := h.values fun i leaf => (hsame.hasLeaf i leaf).mp
  rcases hvalues i leaf with ⟨value, hlast, hvalue⟩ | ⟨-, hkept⟩
  · have hhas : HasLeaf items i leaf := by
      rw [← hsame.hasLeaf, hasLeaf_iff_leafOf, hvalue]
      rfl
    obtain ⟨old, hold⟩ := Option.isSome_iff_exists.mp (hasLeaf_iff_leafOf.mp hhas)
    exact Or.inr ⟨old, value, hold, hvalue, ht.values i leaf old value hold hlast⟩
  · exact Or.inl hkept

theorem shaped_of_tunes (hlookup : fields.lookup "assertions" = some (.arr items)) (h : Writes int items overrides out)
    (ht : Tunes int items overrides) : Shaped (.obj fields) (withAssertions fields out) := by
  have hset : (setField "assertions" (.arr out) fields).lookup "assertions" = some (.arr out) :=
    (lookup_setField _ _ _ _).trans (if_pos rfl)
  have hsame := h.sameLeaves ht.named
  intro ps ys hys
  rcases locate_cases hlookup h.grown ps with hkept | rfl | rfl | ⟨i, rfl, xs, hxs⟩ | ⟨i, leaf, qs, rfl⟩
  · exact ⟨ys, hkept ▸ hys, fun _ => rfl⟩
  · cases hys
    refine ⟨fields, rfl, fun k => ?_⟩
    rw [lookup_setField]
    split
    next hk =>
      rw [hk, hlookup]
      rfl
    next => rfl
  · rw [withAssertions, locate_obj_assertions hset] at hys
    cases hys
  · have hout : out[i]? = some (.obj ys) := by
      rw [withAssertions, locate_obj_assertions hset] at hys
      exact (Option.bind_fun_some _).symm.trans hys
    refine ⟨xs, ?_, (sameKeys_of_hasLeaf hxs hout).mpr (hsame.hasLeaf i)⟩
    rw [locate_obj_assertions hlookup, locate_cons, child, hxs]
    rfl
  · rw [locate_append, locate_leafPosition hlookup]
    rw [locate_append, withAssertions, locate_leafPosition hset] at hys
    rcases leaf_of_tunes h ht i leaf with hkept | ⟨old, value, hold, hvalue, hshaped, -⟩
    · exact ⟨ys, hkept ▸ hys, fun _ => rfl⟩
    · rw [hvalue, Option.bind_some] at hys
      rw [hold, Option.bind_some]
      exact hshaped qs ys hys

theorem retuned_of_tunes (hlookup : fields.lookup "assertions" = some (.arr items))
    (h : Writes int items overrides out) (hne : overrides ≠ []) (ht : Tunes int items overrides) :
    Retuned int overrides (.obj fields) (withAssertions fields out) := by
  have hset : (setField "assertions" (.arr out) fields).lookup "assertions" = some (.arr out) :=
    (lookup_setField _ _ _ _).trans (if_pos rfl)
  have hsame := h.sameLeaves ht.named
  obtain ⟨-, hvalues, hframe⟩ := h.values fun i leaf => (hsame.hasLeaf i leaf).mp
  have hassertions := assertionsOf_obj hlookup
  refine ⟨?_, fun i => ?_, shaped_of_tunes hlookup h ht, fun ps hps => ?_⟩
  · rw [assertionsOf_withAssertions, hassertions, hsame.length]
  · rw [withAssertions, locate_leafPosition hset, locate_leafPosition hlookup]
    rcases leaf_of_tunes h ht i "type" with hkept | ⟨old, value, hold, hvalue, -, htype⟩
    · exact hkept
    · rw [hold, hvalue, htype rfl]
  · rw [hassertions] at hps
    obtain ⟨kv, hkv⟩ := List.exists_mem_of_ne_nil overrides hne
    obtain ⟨i₀, leaf₀, hplaces₀, -⟩ := ht.named kv hkv
    have hfirst := (hps i₀ leaf₀ ⟨kv, hkv, hplaces₀⟩).2
    rcases locate_cases hlookup h.grown ps with hkept | rfl | rfl | ⟨i, rfl, -⟩ | ⟨i, leaf, qs, rfl⟩
    · exact hkept
    · exact absurd List.nil_prefix hfirst
    · exact absurd ⟨_, rfl⟩ hfirst
    · have hnone : ∀ leaf, ∀ kv ∈ overrides, ¬ Places int items kv.1 i leaf :=
        fun leaf kv hkv hplaces => (hps i leaf ⟨kv, hkv, hplaces⟩).2 ⟨_, rfl⟩
      rw [withAssertions, locate_obj_assertions hset, locate_obj_assertions hlookup, locate_cons, locate_cons, child,
        child, hframe i hnone]
    · rw [locate_append, locate_append, withAssertions, locate_leafPosition hset, locate_leafPosition hlookup]
      rcases hvalues i leaf with ⟨value, hlast, -⟩ | ⟨-, hkept⟩
      · exact absurd (List.prefix_append _ _) (hps i leaf hlast.mem).1
      · rw [hkept]

end Definition

/-- Accepted overrides only retune the parameters of a definition exactly when each key names a leaf that the
definition has, and the last value of a leaf has the shape of the old one, and is the old one for a type. -/
theorem overrides_retune_iff {objects objects' : Objects} {r r' : ℕ} {overrides : List (String × Json)} {d : Json}
    (hd : objects[r]? = some d) (h : applyOverrides int repr r overrides objects = (.returned r', objects')) :
    ((∃ merged, objects'[r']? = some merged ∧ Retuned int overrides d merged) ∧
      ∀ k < objects.length, objects'[k]? = objects[k]?) ↔ Tunes int (assertionsOf d) overrides := by
  by_cases hne : overrides = []
  · subst hne
    cases h
    refine iff_of_true ⟨⟨d, hd, rfl, fun _ => rfl, .refl d, fun _ _ => rfl⟩, fun _ _ => rfl⟩
      ⟨fun _ hkv => absurd hkv List.not_mem_nil, fun i leaf old value _ hlast => ?_⟩
    obtain ⟨kv, hkv, -⟩ := hlast.mem
    cases hkv
  · obtain ⟨fields, items, out, hfields, hlookup, hwrites, rfl, rfl⟩ := (applyOverrides_returned_iff hne).mp h
    have hobj : d = .obj fields := by
      rw [← hfields, List.getD_eq_getElem?_getD, hd]
      rfl
    subst hobj
    have hframe : ∀ k < objects.length,
        (objects ++ [.obj (setField "assertions" (.arr out) fields)])[k]? = objects[k]? :=
      fun k hk => List.getElem?_append_left hk
    rw [assertionsOf_obj hlookup, and_iff_left hframe]
    constructor
    · rintro ⟨merged, hmerged, hr⟩
      cases List.getElem?_concat_length.symm.trans hmerged
      exact tunes_of_retuned hlookup hwrites hr
    · intro ht
      exact ⟨_, List.getElem?_concat_length, retuned_of_tunes hlookup hwrites hne ht⟩

theorem overrides_retune_iff_sample :
    ((∃ merged, [sampleDefinition, sampleMerged][1]? = some merged ∧
        Retuned sampleInt sampleOverrides sampleDefinition merged) ∧
      ∀ k < [sampleDefinition].length, [sampleDefinition, sampleMerged][k]? = [sampleDefinition][k]?) ↔
    Tunes sampleInt (assertionsOf sampleDefinition) sampleOverrides :=
  overrides_retune_iff rfl sample_accepted

/-- A path whose leaf is mistyped. -/
def mistyped : List (String × Json) := [("assertions.0.min_cont", .int 5)]

theorem mistyped_leaf_added : ∃ objects', applyOverrides sampleInt id 0 mistyped [sampleDefinition] =
      (.returned 1, objects') ∧
    ¬ ((∃ merged, objects'[1]? = some merged ∧ Retuned sampleInt mistyped sampleDefinition merged) ∧
      ∀ k < [sampleDefinition].length, objects'[k]? = [sampleDefinition][k]?) := by
  have hpath : Overrides.path "assertions.0.min_cont" = some ("0", "min_cont") := by
    rw [path_eq]
    decide +kernel
  have hplaces : Places sampleInt [.obj [("type", .str "notice_check"), ("min_count", .int 1)],
      .obj [("type", .str "chain_tx"), ("repeat", .int 1)]] "assertions.0.min_cont" 0 "min_cont" :=
    Or.inl ⟨"0", hpath, rfl, _, rfl⟩
  have hrun : applyOverrides sampleInt id 0 mistyped [sampleDefinition] = (.returned 1, _) :=
    (applyOverrides_returned_iff (List.cons_ne_nil _ _)).mpr ⟨_, _, _, rfl, rfl, .write hplaces (.done _), rfl, rfl⟩
  refine ⟨_, hrun, ?_⟩
  rintro ⟨⟨merged, hmerged, hr⟩, -⟩
  cases hmerged
  -- the first assertion has a third key
  obtain ⟨old, hold, hkeys⟩ := hr.shaped [.key "assertions", .index 0] _ rfl
  cases hold
  have hkey := hkeys "min_cont"
  revert hkey
  decide +kernel

end ReleaseValidation.AiAgent.TestTrigger
