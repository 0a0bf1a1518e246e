import Mathlib.Data.List.Forall2
import ReleaseValidation.Catalog.ReleaseBodies
import ReleaseValidation.Foundations.Separators
import ReleaseValidation.Store.Positions

/-! # Paths into replies

A `json_rpc`, an `inspect_query` and a `graphql` assertion name a part of the reply by a path such as
`data[0].raw_data`. Each executor has its own function that resolves a path. They split it at dots and at
numbers in brackets, and differ in how they tell an index from a key among the parts.
-/
namespace ReleaseValidation.Store
open Programs
namespace Json

/-- `j[n]`. -/
def elementAt (j : Json) (n : ℤ) : Except Err Json :=
  match j with
  | arr items =>
    let i := if n < 0 then n + items.length else n
    if i < 0 then .error (.exception "list index out of range")
    else
      match items[i.toNat]? with
      | some v => .ok v
      | none => .error (.exception "list index out of range")
  | str s =>
    let i := if n < 0 then n + s.length else n
    if i < 0 then .error (.exception "string index out of range")
    else
      match s.toList[i.toNat]? with
      | some c => .ok (str c.toString)
      | none => .error (.exception "string index out of range")
  | obj _ => .error (.exception (toString n))
  | j => .error (.exception ("'" ++ j.typeName ++ "' object is not subscriptable"))

end Json
end ReleaseValidation.Store

namespace ReleaseValidation.TestRunner.JsonPaths
open Store Programs Catalog Separators

section Paths
variable (ch : Characters)

/-- `\.|\[\d+\]`, with the digits. -/
def separator : List Char → Option (Option (List Char) × ℕ)
  | '.' :: _ => some (none, 0)
  | '[' :: s =>
    let ds := s.takeWhile (digit ch)
    if ds ≠ [] ∧ (s.drop ds.length).head? = some ']' then some (some ds, ds.length + 1) else none
  | _ => none

/-- How an executor reads the parts of a path: what its expression captures of a bracket with these digits,
and the text that it gives to `int()` if it takes a part for an index. -/
structure Reader where
  captures : List Char → List Char
  asIndex : List Char → Option (List Char)

/-- `part[1:-1]`. -/
def inside (part : List Char) : List Char := part.tail.dropLast

/-- The bracket is captured, and a part in brackets is an index. -/
def jsonRpc : Reader where
  captures ds := '[' :: ds ++ [']']
  asIndex part := if part.head? = some '[' ∧ part.getLast? = some ']' then some (inside part) else none

/-- A part that begins with a bracket is an index. -/
def inspectQuery : Reader where
  captures ds := '[' :: ds ++ [']']
  asIndex part := if part.head? = some '[' then some (inside part) else none

/-- The digits alone are captured, and a part that `isdigit` is an index. -/
def graphql (isdigit : Char → Bool) : Reader where
  captures ds := ds
  asIndex part := if part ≠ [] ∧ part.all isdigit then some part else none

namespace Reader
variable (r : Reader)

/-- What is neither `None` nor empty of the pieces and the captures. -/
def collect (l : List (List Char ⊕ Option (List Char))) : List (List Char) :=
  (l.filterMap fun
    | .inl piece => some piece
    | .inr ds => ds.map r.captures).filter (· ≠ [])

def parts (path : List Char) : List (List Char) := r.collect (split (separator ch) path)

/-- The body of the loop. -/
def access (j : Json) (part : List Char) : Except Err Json :=
  match r.asIndex part with
  | some text =>
    match limitedInt ch (String.ofList text) with
    | some n => j.elementAt n
    | none => .error (.exception ("invalid literal for int() with base 10: '" ++ String.ofList text ++ "'"))
  | none => j.item (String.ofList part)

/-- `_resolve_path`, and `_resolve` of `inspect_query`. -/
def resolvePath (j : Json) (path : List Char) : Except Err Json := (r.parts ch path).foldlM (r.access ch) j

end Reader

def jsonRpcResolvePath : Json → List Char → Except Err Json := jsonRpc.resolvePath ch
def inspectQueryResolve : Json → List Char → Except Err Json := inspectQuery.resolvePath ch

def graphqlResolvePath (isdigit : Char → Bool) : Json → List Char → Except Err Json :=
  (graphql isdigit).resolvePath ch

/-- A position behind another one, in the notation of the paths. -/
def renderTail : List Json.Part → List Char
  | [] => []
  | .key k :: ps => '.' :: (k.toList ++ renderTail ps)
  | .index n :: ps => '[' :: (Nat.toDigits 10 n ++ ']' :: renderTail ps)

/-- A position in the notation of the paths. -/
def render : List Json.Part → List Char
  | .key k :: ps => k.toList ++ renderTail ps
  | ps => renderTail ps

/-- The part is read back as it is: a key is not empty, has no dot and no number in brackets in it, and is not
taken for an index; an index has no more digits than `int()` reads. -/
def Expressible (r : Reader) : Json.Part → Prop
  | .key k => k.toList ≠ [] ∧ Plain (separator ch) k.toList [] ∧ r.asIndex k.toList = none
  | .index n => (Nat.toDigits 10 n).length ≤ 4300

instance (r : Reader) (p : Json.Part) : Decidable (Expressible ch r p) := by
  cases p <;> unfold Expressible <;> infer_instance

end Paths

/-- The character tables on the digits of ASCII and the signs of the notation. -/
structure Lexis (ch : Characters) : Prop where
  decimal : ∀ c : Char, c.isDigit = true → ch.decimal c = some (c.toNat - '0'.toNat)
  space : ∀ c : Char, c.isDigit = true → ch.space c = false
  signs : ∀ c ∈ ['.', '[', ']'], ch.decimal c = none

/-- What the reader captures of a number is an index with its digits. -/
def Reader.Captures (ch : Characters) (r : Reader) : Prop :=
  ∀ ds, ds ≠ [] → (∀ c ∈ ds, digit ch c = true) → r.captures ds ≠ [] ∧ r.asIndex (r.captures ds) = some ds

/-! ### Numbers -/

section Numbers
variable {ch : Characters} {n : ℕ} {c : Char} {ds : List Char}

theorem isDigit_toDigits (n : ℕ) : ∀ c ∈ Nat.toDigits 10 n, c.isDigit = true := fun _ hc =>
  Nat.isDigit_of_mem_toDigits (by decide) (by decide) hc

theorem Lexis.isDecimal (hch : Lexis ch) (hc : c.isDigit = true) : digit ch c = true := by
  rw [digit, hch.decimal c hc]
  rfl

theorem Lexis.digit_toDigits (hch : Lexis ch) (n : ℕ) : ∀ c ∈ Nat.toDigits 10 n, digit ch c = true :=
  fun c hc => hch.isDecimal (isDigit_toDigits n c hc)

theorem moreDigits_eq (hch : Lexis ch) (hds : ∀ c ∈ ds, c.isDigit = true) (a : ℕ) :
    moreDigits ch a ds = some (Nat.ofDigitChars 10 ds a) := by
  induction ds generalizing a with
  | nil => rfl
  | cons c ds ih =>
    obtain ⟨hc, hds⟩ := List.forall_mem_cons.mp hds
    have hne : c ≠ '_' := by
      rintro rfl
      cases hc
    have hcons : moreDigits ch a (c :: ds) = (ch.decimal c).bind fun d => moreDigits ch (10 * a + d) ds := by
      cases ds <;> simp [moreDigits, hne]
    rw [hcons, hch.decimal c hc, Option.bind_some, ih hds, Nat.ofDigitChars_cons]

theorem strip_digits (hch : Lexis ch) (hds : ∀ c ∈ ds, c.isDigit = true) :
    (strip ch (String.ofList ds)).toList = ds := by
  have hkeep : ∀ l : List Char, (∀ c ∈ l, c.isDigit = true) → l.dropWhile ch.space = l := by
    intro l hl
    cases l with
    | nil => rfl
    | cons c l => exact List.dropWhile_cons_of_neg (by simp [hch.space c (hl c List.mem_cons_self)])
  have hback : ∀ c ∈ ds.reverse, c.isDigit = true := fun c hc => hds c (List.mem_reverse.mp hc)
  rw [strip, String.toList_ofList, String.toList_ofList, hkeep ds hds, hkeep ds.reverse hback, List.reverse_reverse]

theorem parseInt_digits (hch : Lexis ch) (hds : ∀ c ∈ ds, c.isDigit = true) (hne : ds ≠ []) :
    parseInt ch (String.ofList ds) = some (Nat.ofDigitChars 10 ds 0 : ℤ) := by
  obtain ⟨c, cs, rfl⟩ := List.exists_cons_of_ne_nil hne
  have hc := hds c List.mem_cons_self
  have hminus : c ≠ '-' := by
    rintro rfl
    cases hc
  have hplus : c ≠ '+' := by
    rintro rfl
    cases hc
  have hdigits : digits ch (c :: cs) = some (Nat.ofDigitChars 10 (c :: cs) 0) := by
    rw [digits, hch.decimal c hc, Option.bind_some, moreDigits_eq hch fun d hd => hds d (List.mem_cons_of_mem c hd),
      Nat.ofDigitChars_cons, Nat.mul_zero, Nat.zero_add]
  rw [parseInt, strip_digits hch hds]
  split
  next h => exact absurd (List.cons.inj h).1 hminus
  next h => exact absurd (List.cons.inj h).1 hplus
  next =>
    rw [hdigits]
    rfl

/-- The number behind a bracket is read, if it isn't too long. -/
theorem limitedInt_toDigits (hch : Lexis ch) (n : ℕ) : limitedInt ch (String.ofList (Nat.toDigits 10 n)) =
    if (Nat.toDigits 10 n).length ≤ 4300 then some (n : ℤ) else none := by
  have hall : (Nat.toDigits 10 n).filter (fun c => (ch.decimal c).isSome) = Nat.toDigits 10 n :=
    List.filter_eq_self.mpr (hch.digit_toDigits n)
  have hvalue : Nat.ofDigitChars 10 (Nat.toDigits 10 n) 0 = n := Nat.ofDigitChars_toDigits (by decide) (by decide)
  rw [limitedInt, String.toList_ofList, hall, parseInt_digits hch (isDigit_toDigits n) Nat.toDigits_ne_nil, hvalue]
  split
  next h => rw [if_neg (by omega)]
  next h => rw [if_pos (by omega)]

end Numbers

/-! ### Parts -/

section Parts
variable {ch : Characters} {r : Reader}

theorem Lexis.not_digit (hch : Lexis ch) {c : Char} (hc : c ∈ ['.', '[', ']']) : digit ch c = false := by
  rw [digit, hch.signs c hc]
  rfl

theorem separator_bracket (hch : Lexis ch) {ds : List Char} (hne : ds ≠ []) (hds : ∀ c ∈ ds, digit ch c = true)
    (s : List Char) : separator ch ('[' :: ((ds ++ [']']) ++ s)) = some (some ds, (ds ++ [']']).length) := by
  have htake : ((ds ++ [']']) ++ s).takeWhile (digit ch) = ds := by
    rw [List.append_assoc, List.takeWhile_append_of_pos hds, List.singleton_append,
      List.takeWhile_cons_of_neg (by simp [hch.not_digit (c := ']')]), List.append_nil]
  have hdrop : (((ds ++ [']']) ++ s).drop ds.length).head? = some ']' := by simp
  simp only [separator, htake]
  rw [if_pos ⟨hne, hdrop⟩, List.length_append]
  rfl

theorem bracket_of_separator {s : List Char} {b : Option (List Char) × ℕ} (h : separator ch ('[' :: s) = some b) :
    ∃ ds rest, s = ds ++ ']' :: rest ∧ ds ≠ [] ∧ (∀ c ∈ ds, digit ch c = true) ∧ b.1 = some ds := by
  obtain ⟨⟨hne, hhead⟩, h⟩ := Option.ite_none_right_eq_some.mp h
  cases h
  obtain ⟨rest, hrest⟩ := List.head?_eq_some_iff.mp hhead
  have hsplit : s.takeWhile (digit ch) ++ s.drop (s.takeWhile (digit ch)).length = s :=
    List.prefix_iff_eq_append.mp (List.takeWhile_prefix _)
  exact ⟨s.takeWhile (digit ch), rest, by rw [← hrest, hsplit], hne, List.all_eq_true.mp List.all_takeWhile, rfl⟩

theorem separator_eq_some {t : List Char} {b : Option (List Char) × ℕ} (h : separator ch t = some b) :
    (∃ s, t = '.' :: s ∧ b = (none, 0)) ∨
      ∃ ds rest, t = '[' :: (ds ++ ']' :: rest) ∧ ds ≠ [] ∧ (∀ c ∈ ds, digit ch c = true) ∧ b.1 = some ds := by
  unfold separator at h
  split at h
  next s =>
    cases h
    exact .inl ⟨s, rfl, rfl⟩
  next s =>
    obtain ⟨ds, rest, hs, hrest⟩ := bracket_of_separator (by simpa [separator] using h)
    exact .inr ⟨ds, rest, by rw [hs], hrest⟩
  next => cases h

/-- A key without a separator in it has no dot, and no number in brackets. -/
theorem plain_iff (hch : Lexis ch) {k : List Char} : Plain (separator ch) k [] ↔ '.' ∉ k ∧
    ∀ before ds after, k = before ++ '[' :: (ds ++ ']' :: after) → ds ≠ [] → ∃ c ∈ ds, digit ch c = false := by
  constructor
  · intro h
    refine ⟨fun hdot => ?_, fun before ds after hk hne => ?_⟩
    · obtain ⟨before, after, rfl⟩ := List.append_of_mem hdot
      cases h _ (List.suffix_append before ('.' :: after)) (List.cons_ne_nil _ _)
    · by_contra hall
      push Not at hall
      have hnone := h _ (hk ▸ List.suffix_append before _) (List.cons_ne_nil _ _)
      have hshape : '[' :: (ds ++ ']' :: after) ++ [] = '[' :: ((ds ++ [']']) ++ after) := by simp
      rw [hshape, separator_bracket hch hne fun c hc => eq_true_of_ne_false (hall c hc)] at hnone
      cases hnone
  · rintro ⟨hdot, hbracket⟩ t ⟨before, rfl⟩ -
    rw [List.append_nil, Option.eq_none_iff_forall_ne_some]
    intro b hb
    rcases separator_eq_some hb with ⟨s, rfl, -⟩ | ⟨ds, rest, rfl, hne, hds, -⟩
    · simp at hdot
    · obtain ⟨c, hc, hno⟩ := hbracket before ds rest rfl hne
      rw [hds c hc] at hno
      cases hno

theorem separator_extends (hch : Lexis ch) : Extends (separator ch) := by
  intro text s b h
  rcases separator_eq_some h with ⟨t, rfl, rfl⟩ | ⟨ds, rest, rfl, hne, hds, -⟩
  · rfl
  · have hshape : ∀ t, '[' :: (ds ++ ']' :: t) = '[' :: ((ds ++ [']']) ++ t) := fun t => by simp
    have hlong : '[' :: (ds ++ ']' :: rest) ++ s = '[' :: (ds ++ ']' :: (rest ++ s)) := by simp
    rw [hshape, separator_bracket hch hne hds] at h
    rw [hlong, hshape, separator_bracket hch hne hds, h]

/-- What follows a key starts at a dot or a bracket, and makes no separator in the key. -/
theorem plain_before (hch : Lexis ch) {k s : List Char} (hk : Plain (separator ch) k [])
    (hs : ∀ c ∈ s.head?, c = '.' ∨ c = '[') : Plain (separator ch) k s := by
  intro t ht hne
  have hnone := hk t ht hne
  rw [List.append_nil] at hnone
  rw [Option.eq_none_iff_forall_ne_some]
  intro b hb
  obtain ⟨c, t, rfl⟩ := List.exists_cons_of_ne_nil hne
  rcases separator_eq_some hb with ⟨s', hcons, -⟩ | ⟨ds, rest, hcons, hds, hdigits, -⟩
  · cases (List.cons.inj hcons).1
    cases hnone
  · obtain ⟨rfl, hsplit⟩ := List.cons.inj hcons
    rcases List.append_eq_append_iff.mp hsplit with ⟨more, rfl, hmore⟩ | ⟨more, rfl, hmore⟩
    · cases more with
      | nil =>
        rw [hmore] at hs
        simp at hs
      | cons d more =>
        have hd : d ∈ ['.', '[', ']'] := by
          rcases hs d (by rw [hmore]; rfl) with rfl | rfl <;> decide
        have hdigit := hdigits d (by simp)
        rw [hch.not_digit hd] at hdigit
        cases hdigit
    · cases more with
      | nil =>
        rw [List.nil_append] at hmore
        rw [← hmore] at hs
        simp at hs
      | cons d more =>
        obtain ⟨rfl, -⟩ := List.cons.inj hmore
        have hshape : '[' :: (ds ++ ']' :: more) = '[' :: ((ds ++ [']']) ++ more) := by simp
        rw [hshape, separator_bracket hch hds hdigits] at hnone
        cases hnone

/-! ### Paths that are read back -/

/-- The text of a part between dots and brackets. -/
def Reader.partOf (r : Reader) : Json.Part → List Char
  | .key k => k.toList
  | .index n => r.captures (Nat.toDigits 10 n)

/-- A key that is read back; the digits of indices do not matter for that. -/
def KeyExpressible (ch : Characters) (r : Reader) : Json.Part → Prop
  | .key k => Expressible ch r (.key k)
  | .index _ => True

theorem Expressible.key {p : Json.Part} (h : Expressible ch r p) : KeyExpressible ch r p := by
  cases p with
  | key k => exact h
  | index n => trivial

theorem head_renderTail (ps : List Json.Part) : ∀ c ∈ (renderTail ps).head?, c = '.' ∨ c = '[' := by
  intro c hc
  cases ps with
  | nil => cases hc
  | cons p ps =>
    cases p with
    | key k =>
      cases hc
      exact .inl rfl
    | index n =>
      cases hc
      exact .inr rfl

theorem collect_separated (piece : List Char) (b : Option (List Char)) (l : List (List Char ⊕ Option (List Char))) :
    r.collect (.inl piece :: .inr b :: l) =
      [piece].filter (· ≠ []) ++ ((b.map r.captures).toList.filter (· ≠ []) ++ r.collect l) := by
  have hsplit : (.inl piece :: .inr b :: l : List (List Char ⊕ Option (List Char))) =
      [.inl piece] ++ ([.inr b] ++ l) := rfl
  rw [hsplit, Reader.collect, List.filterMap_append, List.filterMap_append, List.filter_append, List.filter_append]
  cases b <;> rfl

theorem collect_renderTail (hch : Lexis ch) (hr : r.Captures ch) {ps : List Json.Part}
    (hps : ∀ p ∈ ps, KeyExpressible ch r p) (piece : List Char) :
    r.collect (Separators.scan (separator ch) 0 piece (renderTail ps)) = [piece].filter (· ≠ []) ++ ps.map r.partOf := by
  induction ps generalizing piece with
  | nil => simp [renderTail, Separators.scan, Reader.collect]
  | cons p ps ih =>
    obtain ⟨hp, hrest⟩ := List.forall_mem_cons.mp hps
    cases p with
    | key k =>
      obtain ⟨hne, hplain, -⟩ := hp
      have hdot : separator ch ('.' :: ([] ++ (k.toList ++ renderTail ps))) =
          some (none, ([] : List Char).length) := rfl
      rw [renderTail, ← List.nil_append (k.toList ++ renderTail ps), scan_separator hdot, collect_separated,
        scan_plain (plain_before hch hplain (head_renderTail ps)), ih hrest]
      simp [hne, Reader.partOf]
    | index n =>
      have hdigits := hch.digit_toDigits n
      have hbracket := separator_bracket hch Nat.toDigits_ne_nil hdigits (renderTail ps)
      have hshape : Nat.toDigits 10 n ++ ']' :: renderTail ps = (Nat.toDigits 10 n ++ [']']) ++ renderTail ps := by simp
      rw [renderTail, hshape, scan_separator hbracket, collect_separated, ih hrest]
      simp [(hr _ Nat.toDigits_ne_nil hdigits).1, Reader.partOf]

theorem parts_render (hch : Lexis ch) (hr : r.Captures ch) {ps : List Json.Part}
    (hps : ∀ p ∈ ps, KeyExpressible ch r p) : r.parts ch (render ps) = ps.map r.partOf := by
  change r.collect (Separators.scan (separator ch) 0 [] (render ps)) = _
  cases ps with
  | nil => rfl
  | cons p ps =>
    cases p with
    | key k =>
      obtain ⟨hp, hrest⟩ := List.forall_mem_cons.mp hps
      rw [render, scan_plain (plain_before hch hp.2.1 (head_renderTail ps)), collect_renderTail hch hr hrest]
      simp [hp.1, Reader.partOf]
    | index n => simpa [render] using collect_renderTail hch hr hps []

/-- Every part is a piece without a separator or a number that was captured. -/
theorem mem_parts (hch : Lexis ch) {path part : List Char} (h : part ∈ r.parts ch path) :
    part ≠ [] ∧ (Plain (separator ch) part [] ∨
      ∃ ds, ds ≠ [] ∧ (∀ c ∈ ds, digit ch c = true) ∧ part = r.captures ds) := by
  obtain ⟨hmem, hne⟩ := List.mem_filter.mp h
  refine ⟨by simpa using hne, ?_⟩
  obtain ⟨x, hx, hpart⟩ := List.mem_filterMap.mp hmem
  cases x with
  | inl piece =>
    cases hpart
    exact .inl (plain_of_mem_scan (separator_extends hch) (fun h => absurd rfl h) (plain_nil path) hx)
  | inr b =>
    obtain ⟨ds, rfl, rfl⟩ := Option.map_eq_some_iff.mp hpart
    obtain ⟨t, n, ht⟩ := recognised_of_mem_scan hx
    rcases separator_eq_some ht with ⟨s, -, hnone⟩ | ⟨ds', rest, -, hne, hds, hb⟩
    · cases hnone
    · cases hb
      exact .inr ⟨ds, hne, hds, rfl⟩

end Parts

/-! ### Positions that are found -/

section Positions
variable {ch : Characters} {r : Reader}

theorem elementAt_index {items : List Json} {n : ℕ} {v : Json} (h : items[n]? = some v) :
    (Json.arr items).elementAt n = .ok v := by
  have hn : ¬ (n : ℤ) < 0 := by omega
  simp [Json.elementAt, hn, h]

theorem access_part (hch : Lexis ch) (hr : r.Captures ch) {p : Json.Part} (hp : Expressible ch r p) {j v : Json}
    (hv : j.child p = some v) : r.access ch j (r.partOf p) = .ok v := by
  cases p with
  | key k =>
    cases j with
    | obj fields =>
      have hlookup : fields.lookup k = some v := hv
      simp only [Reader.access, Reader.partOf, hp.2.2, String.ofList_toList, Json.item, hlookup]
    | _ => cases hv
  | index n =>
    cases j with
    | arr items =>
      have hdigits := (hr _ Nat.toDigits_ne_nil (hch.digit_toDigits n)).2
      have hle : (Nat.toDigits 10 n).length ≤ 4300 := hp
      simp only [Reader.access, Reader.partOf, hdigits, limitedInt_toDigits hch, if_pos hle]
      exact elementAt_index hv
    | _ => cases hv

theorem resolve_of_locate (hch : Lexis ch) (hr : r.Captures ch) {ps : List Json.Part}
    (hps : ∀ p ∈ ps, Expressible ch r p) {j v : Json} (h : j.locate ps = some v) :
    r.resolvePath ch j (render ps) = .ok v := by
  rw [Reader.resolvePath, parts_render hch hr fun p hp => (hps p hp).key]
  induction ps generalizing j with
  | nil =>
    cases h
    rfl
  | cons p ps ih =>
    obtain ⟨hp, hrest⟩ := List.forall_mem_cons.mp hps
    obtain ⟨c, hc, h⟩ := Option.bind_eq_some_iff.mp h
    rw [List.map_cons, List.foldlM_cons, access_part hch hr hp hc]
    exact ih hrest h

/-- A value with one way down to a leaf. -/
def nest : List Json.Part → Json
  | [] => .bool true
  | .key k :: ps => .obj [(k, nest ps)]
  | .index n :: ps => .arr (List.replicate n .null ++ [nest ps])

theorem locate_nest (ps : List Json.Part) : (nest ps).locate ps = some (.bool true) := by
  induction ps with
  | nil => rfl
  | cons p ps ih =>
    rw [Json.locate_cons]
    cases p with
    | key k => simpa [nest, Json.child] using ih
    | index n => simpa [nest, Json.child] using ih

/-- The part of the path may stand for the part of the position. -/
def Stands (ch : Characters) (r : Reader) (part : List Char) : Json.Part → Prop
  | .key k => r.asIndex part = none ∧ part = k.toList
  | .index _ => ∃ text n, r.asIndex part = some text ∧ limitedInt ch (String.ofList text) = some n

theorem access_scalar {j : Json} (hj : j = .null ∨ j = .bool true) (part : List Char) (v : Json) :
    r.access ch j part ≠ .ok v := by
  unfold Reader.access
  rcases hj with rfl | rfl <;> split <;> first | (split <;> exact nofun) | exact nofun

theorem null_foldlM (xs : List (List Char)) : xs.foldlM (r.access ch) .null ≠ .ok (.bool true) := by
  cases xs with
  | nil => exact nofun
  | cons x xs =>
    rw [List.foldlM_cons]
    cases h : r.access ch .null x with
    | error e => exact nofun
    | ok v => exact absurd h (access_scalar (.inl rfl) x v)

/-- The element of the nest at an index is the next one, or nothing. -/
theorem elementAt_nest {n : ℕ} {m : ℤ} {j v : Json}
    (h : (Json.arr (List.replicate n .null ++ [j])).elementAt m = .ok v) : v = .null ∨ v = j := by
  simp only [Json.elementAt] at h
  generalize (if m < 0 then m + ((List.replicate n Json.null ++ [j]).length : ℤ) else m) = i at h
  split at h
  · cases h
  split at h
  next hv =>
    cases h
    have hmem := List.mem_of_getElem? hv
    simp only [List.mem_append, List.mem_replicate, List.mem_singleton] at hmem
    exact hmem.imp And.right id
  next => cases h

/-- What reaches the leaf goes the one way down. -/
theorem stands_of_nest {ps : List Json.Part} {parts : List (List Char)}
    (h : parts.foldlM (r.access ch) (nest ps) = .ok (.bool true)) : List.Forall₂ (Stands ch r) parts ps := by
  induction ps generalizing parts with
  | nil =>
    cases parts with
    | nil => exact .nil
    | cons x xs =>
      rw [List.foldlM_cons] at h
      cases hx : r.access ch (nest []) x with
      | error e =>
        rw [hx] at h
        cases h
      | ok v => exact absurd hx (access_scalar (.inr rfl) x v)
  | cons p ps ih =>
    cases parts with
    | nil => cases p <;> cases h
    | cons x xs =>
      rw [List.foldlM_cons] at h
      cases hx : r.access ch (nest (p :: ps)) x with
      | error e =>
        rw [hx] at h
        cases h
      | ok v =>
        rw [hx] at h
        change xs.foldlM (r.access ch) v = .ok (.bool true) at h
        unfold Reader.access at hx
        cases p with
        | key k =>
          cases hindex : r.asIndex x with
          | some text =>
            simp only [hindex, nest] at hx
            split at hx <;> cases hx
          | none =>
            simp only [hindex, nest, Json.item] at hx
            split at hx
            next hlookup =>
              cases hx
              rw [lookup_cons_ite] at hlookup
              split at hlookup
              next hk =>
                cases hlookup
                exact .cons ⟨hindex, by rw [← hk, String.toList_ofList]⟩ (ih h)
              next => cases hlookup
            next => cases hx
        | index n =>
          cases hindex : r.asIndex x with
          | none =>
            simp only [hindex, nest, Json.item] at hx
            cases hx
          | some text =>
            simp only [hindex, nest] at hx
            split at hx
            next m hm =>
              rcases elementAt_nest hx with rfl | rfl
              · exact absurd h (null_foldlM xs)
              · exact .cons ⟨text, m, hindex, hm⟩ (ih h)
            next => cases hx

theorem exists_part {parts : List (List Char)} {ps : List Json.Part} (h : List.Forall₂ (Stands ch r) parts ps)
    {p : Json.Part} (hp : p ∈ ps) : ∃ part ∈ parts, Stands ch r part p := by
  induction h with
  | nil => cases hp
  | cons hstands _ ih =>
    rcases List.mem_cons.mp hp with rfl | hp
    · exact ⟨_, List.mem_cons_self, hstands⟩
    · obtain ⟨part, hmem, hpart⟩ := ih hp
      exact ⟨part, List.mem_cons_of_mem _ hmem, hpart⟩

theorem expressible_of_resolve (hch : Lexis ch) (hr : r.Captures ch) {ps : List Json.Part}
    (h : r.resolvePath ch (nest ps) (render ps) = .ok (.bool true)) : ∀ p ∈ ps, Expressible ch r p := by
  have hstands := stands_of_nest h
  have hkeys : ∀ p ∈ ps, KeyExpressible ch r p := by
    intro p hp
    cases p with
    | index n => trivial
    | key k =>
      obtain ⟨part, hmem, hindex, hpart⟩ := exists_part hstands hp
      obtain ⟨hne, hplain | ⟨ds, hds, hdigits, heq⟩⟩ := mem_parts hch hmem
      · rw [hpart] at hne hplain hindex
        exact ⟨hne, hplain, hindex⟩
      · rw [heq, (hr ds hds hdigits).2] at hindex
        cases hindex
  intro p hp
  cases p with
  | key k => exact hkeys _ hp
  | index n =>
    rw [parts_render hch hr hkeys] at hstands
    have hpart := (List.forall₂_map_left_iff.mp hstands)
    have hself : Stands ch r (r.partOf (.index n)) (.index n) := by
      have hall := List.forall₂_same.mp hpart
      exact hall _ hp
    obtain ⟨text, m, hindex, hm⟩ := hself
    have hdigits := (hr _ Nat.toDigits_ne_nil (hch.digit_toDigits n)).2
    cases hindex.symm.trans hdigits
    rw [limitedInt_toDigits hch] at hm
    exact (Option.ite_none_right_eq_some.mp hm).1

theorem resolves_iff (hch : Lexis ch) (hr : r.Captures ch) (ps : List Json.Part) :
    (∀ j v, j.locate ps = some v → r.resolvePath ch j (render ps) = .ok v) ↔ ∀ p ∈ ps, Expressible ch r p :=
  ⟨fun h => expressible_of_resolve hch hr (h _ _ (locate_nest ps)), fun h _ _ => resolve_of_locate hch hr h⟩

theorem bracketed_captures (ds : List Char) : inside ('[' :: ds ++ [']']) = ds := by
  simp [inside]

theorem captures_jsonRpc : jsonRpc.Captures ch := by
  intro ds _ _
  have hlast : ('[' :: ds ++ [']']).getLast? = some ']' := List.getLast?_concat
  refine ⟨by simp [jsonRpc], ?_⟩
  simp only [jsonRpc]
  rw [if_pos ⟨rfl, hlast⟩, bracketed_captures]

theorem captures_inspectQuery : inspectQuery.Captures ch := by
  intro ds _ _
  refine ⟨by simp [inspectQuery], ?_⟩
  simp only [inspectQuery]
  have hhead : ('[' :: ds ++ [']']).head? = some '[' := rfl
  rw [if_pos hhead, bracketed_captures]

theorem captures_graphql {isdigit : Char → Bool} (h : ∀ c, digit ch c = true → isdigit c = true) :
    (graphql isdigit).Captures ch := by
  intro ds hne hds
  refine ⟨hne, if_pos ⟨hne, List.all_eq_true.mpr fun c hc => h c (hds c hc)⟩⟩

/-- Each executor finds by a path what is at its position in every reply, exactly when it reads every part of the
path back as it is. -/
theorem paths_resolve_iff {isdigit : Char → Bool} (hch : Lexis ch)
    (hdigits : ∀ c, digit ch c = true → isdigit c = true) (ps : List Json.Part) :
    ((∀ j v, j.locate ps = some v → jsonRpcResolvePath ch j (render ps) = .ok v) ↔
      ∀ p ∈ ps, Expressible ch jsonRpc p) ∧
    ((∀ j v, j.locate ps = some v → inspectQueryResolve ch j (render ps) = .ok v) ↔
      ∀ p ∈ ps, Expressible ch inspectQuery p) ∧
    ((∀ j v, j.locate ps = some v → graphqlResolvePath ch isdigit j (render ps) = .ok v) ↔
      ∀ p ∈ ps, Expressible ch (graphql isdigit) p) :=
  ⟨resolves_iff hch captures_jsonRpc ps, resolves_iff hch captures_inspectQuery ps,
    resolves_iff hch (captures_graphql hdigits) ps⟩

end Positions

theorem lexis_ascii : Lexis .ascii where
  decimal c hc := if_pos hc
  space c hc := by
    by_contra h
    have hspace : c.isWhitespace = true := by simpa [Characters.ascii] using h
    simp only [Char.isWhitespace, Bool.or_eq_true, decide_eq_true_eq] at hspace
    rcases hspace with ((rfl | rfl) | rfl) | rfl <;> cases hc
  signs c hc := by
    obtain rfl | rfl | rfl : c = '.' ∨ c = '[' ∨ c = ']' := by simpa using hc
    all_goals rfl

/-- `data[0].raw_data`, which the executors find, and a key of digits, which only two of them do. -/
theorem paths_resolve_ascii :
    (∀ j v, j.locate [.key "data", .index 0, .key "raw_data"] = some v →
      jsonRpcResolvePath .ascii j "data[0].raw_data".toList = .ok v) ∧
    (∀ j v, j.locate [.key "31337"] = some v → inspectQueryResolve .ascii j "31337".toList = .ok v) ∧
    ¬ ∀ j v, j.locate [.key "31337"] = some v → graphqlResolvePath .ascii Char.isDigit j "31337".toList = .ok v := by
  have hdigits : ∀ c, digit Characters.ascii c = true → c.isDigit = true := by
    intro c hc
    by_contra h
    simp [digit, Characters.ascii, h] at hc
  have hdata := paths_resolve_iff lexis_ascii hdigits [.key "data", .index 0, .key "raw_data"]
  have hchain := paths_resolve_iff lexis_ascii hdigits [.key "31337"]
  exact ⟨hdata.1.mpr (by decide +kernel), hchain.2.1.mpr (by decide +kernel),
    fun h => absurd (hchain.2.2.mp h) (by decide +kernel)⟩

end ReleaseValidation.TestRunner.JsonPaths
