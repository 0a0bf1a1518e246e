import ReleaseValidation.AiAgent.AgentLoop
import ReleaseValidation.Foundations.JsonDocuments
import ReleaseValidation.Foundations.JsonObjects

/-! # Tool results in the context of the model

What a tool returns is shaped, which shortens the long strings of hex digits in it, and written as JSON. A
text above the limit is cut in the middle, and a marker takes the place of what is left out.
-/
namespace ReleaseValidation.AiAgent.ToolResults
open AgentLoop JsonTexts

/-! ### Values -/

/-- A key of a dict. -/
inductive Key
  | str (s : Str)
  | null
  | bool (b : Bool)
  | num (n : Number)
  | nonFinite (x : NonFinite)
  /-- A key for which `json.dumps` raises. -/
  | other

/-- What a tool returns. -/
inductive ToolResult
  | null
  | bool (b : Bool)
  | num (n : Number)
  | nonFinite (x : NonFinite)
  | str (s : Str)
  | list (items : List ToolResult)
  | tuple (items : List ToolResult)
  | dict (fields : List (Key × ToolResult))
  /-- Any other object, with its `str`, which may raise. -/
  | object (text : Option Str)

/-- Induction over a result, with its members as lists. -/
@[elab_as_elim]
theorem ToolResult.byMembers {P : ToolResult → Prop} (null : P .null) (bool : ∀ b, P (.bool b)) (num : ∀ n, P (.num n))
    (nonFinite : ∀ x, P (.nonFinite x)) (str : ∀ s, P (.str s))
    (list : ∀ items, (∀ v ∈ items, P v) → P (.list items)) (tuple : ∀ items, (∀ v ∈ items, P v) → P (.tuple items))
    (dict : ∀ fields, (∀ kv ∈ fields, P kv.2) → P (.dict fields)) (object : ∀ text, P (.object text))
    (v : ToolResult) : P v := by
  refine ToolResult.rec (motive_1 := P) (motive_2 := fun items => ∀ v ∈ items, P v)
    (motive_3 := fun fields => ∀ kv ∈ fields, P kv.2) (motive_4 := fun kv => P kv.2)
    null bool num nonFinite str list tuple dict object ?_ ?_ ?_ ?_ ?_ v
  · exact nofun
  · exact fun v vs hv hvs => List.forall_mem_cons.mpr ⟨hv, hvs⟩
  · exact nofun
  · exact fun kv fs hkv hfs => List.forall_mem_cons.mpr ⟨hkv, hfs⟩
  · exact fun k v hv => hv

/-! ### `_shape_value` -/

mutual

/-- `_shape_value`. -/
def shape : ToolResult → ToolResult
  | .str s => .str (shapeString s)
  | .dict fields => .dict (shapeDict fields)
  | .list items => .list (shapeList items)
  | v => v

def shapeList : List ToolResult → List ToolResult
  | [] => []
  | v :: vs => shape v :: shapeList vs

def shapeDict : List (Key × ToolResult) → List (Key × ToolResult)
  | [] => []
  | (k, v) :: fs => (k, shape v) :: shapeDict fs

end

/-! ### `json.dumps(result, default=str)` -/

/-- The name that is written for a key. -/
def Key.name : Key → Option Str
  | .str s => some s
  | .null => some (points "null".toList)
  | .bool b => some (points (dump (.bool b)))
  | .num n => some (points n.literal)
  | .nonFinite x => some (points x.name)
  | .other => none

mutual

/-- The value that is written for a result, if the writer does not raise. -/
def encode : ToolResult → Option Value
  | .null => some .null
  | .bool b => some (.bool b)
  | .num n => some (.num n)
  | .nonFinite x => some (.nonFinite x)
  | .str s => some (.str s)
  | .list items => (encodeItems items).map .arr
  | .tuple items => (encodeItems items).map .arr
  | .dict fields => (encodeFields fields).map .obj
  | .object text => text.map .str

def encodeItems : List ToolResult → Option (List Value)
  | [] => some []
  | v :: vs => (encode v).bind fun w => (encodeItems vs).map (w :: ·)

def encodeFields : List (Key × ToolResult) → Option (List (Str × Value))
  | [] => some []
  | (k, v) :: fs => k.name.bind fun k => (encode v).bind fun w => (encodeFields fs).map ((k, w) :: ·)

end

def dumps (v : ToolResult) : Option Str := (encode v).map fun w => points (dump w)

/-! ### `_bounded_tool_content` -/

/-- The text, cut to its head and its tail when it is above the limit. -/
def cut (limit : ℕ) (s : Str) : Str :=
  if s.length ≤ limit then s
  else
    let head := limit * 7 / 10
    let tail := limit * 2 / 10
    let omitted : ℤ := s.length - head - tail
    s.take head ++
      str (" …[TRUNCATED " ++ toString omitted ++ " chars — full output is in the tool audit panel]… ") ++
      lastChars tail s

/-- The result goes on as it is if it is too deep to be shaped. -/
def attempt (tooDeep : ToolResult → Bool) (result : ToolResult) : ToolResult :=
  if tooDeep result then result else shape result

/-- `_bounded_tool_content`, if it does not raise. -/
def boundedToolContent (tooDeep : ToolResult → Bool) (limit : ℕ) (result : ToolResult) : Option Str :=
  (dumps (attempt tooDeep result)).map (cut limit)

/-! ### Native values -/

mutual

def ofValue : Value → ToolResult
  | .null => .null
  | .bool b => .bool b
  | .num n => .num n
  | .nonFinite x => .nonFinite x
  | .str s => .str s
  | .arr items => .list (ofItems items)
  | .obj fields => .dict (ofFields fields)

def ofItems : List Value → List ToolResult
  | [] => []
  | v :: vs => ofValue v :: ofItems vs

def ofFields : List (Str × Value) → List (Key × ToolResult)
  | [] => []
  | (k, v) :: fs => (.str k, ofValue v) :: ofFields fs

end

/-- No object has two members of one name. -/
inductive UniqueNames : Value → Prop
  | null : UniqueNames .null
  | bool (b : Bool) : UniqueNames (.bool b)
  | num (n : Number) : UniqueNames (.num n)
  | nonFinite (x : NonFinite) : UniqueNames (.nonFinite x)
  | str (s : Str) : UniqueNames (.str s)
  | arr {items : List Value} (h : ∀ v ∈ items, UniqueNames v) : UniqueNames (.arr items)
  | obj {fields : List (Str × Value)} (hnames : (fields.map Prod.fst).Nodup) (h : ∀ f ∈ fields, UniqueNames f.2) :
      UniqueNames (.obj fields)

/-- The value is that of a document. -/
structure Native (v : Value) : Prop where
  document : ∃ t, read t = some v
  uniqueNames : UniqueNames v

/-- `json.loads`. It reads the grammar, and where a name comes twice it keeps one member. -/
structure Loads where
  loads : Str → Option Value
  reads : ∀ t v, read t = some v → UniqueNames v → loads (points t) = some v

/-! ### What is claimed of the content -/

/-- The text is within the limit, or what is kept of it and the marker are. -/
def Fits (limit length : ℕ) : Prop :=
  length ≤ limit ∨
    limit * 7 / 10 + (63 + (Nat.repr (length - limit * 7 / 10 - limit * 2 / 10)).length) + limit * 2 / 10 ≤ limit

instance (limit length : ℕ) : Decidable (Fits limit length) := inferInstanceAs (Decidable (_ ∨ _))

structure Bounded (py : Loads) (tooDeep : ToolResult → Bool) (limit : ℕ) (v : ToolResult) : Prop where
  short : ∀ t, boundedToolContent tooDeep limit v = some t → t.length ≤ limit
  decodes : ∀ w t, v = ofValue w → Native w → tooDeep v = false → dumps (shape v) = some t → t.length ≤ limit →
    boundedToolContent tooDeep limit v = some t ∧ ∃ w', shape v = ofValue w' ∧ py.loads t = some w'
  idempotent : shape (shape v) = shape v
  notLonger : ∀ t, dumps v = some t → ∃ t', dumps (shape v) = some t' ∧ t'.length ≤ t.length

/-! ### Texts -/

theorem str_append (a b : String) : str (a ++ b) = str a ++ str b := by
  rw [str, str, str, String.toList_append, List.map_append]

theorem toString_nat (n : ℕ) : (toString n).toList = Nat.toDigits 10 n := by
  rw [Nat.toString_eq_repr, Nat.repr_eq_ofList_toDigits, String.toList_ofList]

theorem length_lastChars {α : Type} {n : ℕ} {s : List α} (h : n ≤ s.length) :
    (lastChars n s).length = if n = 0 then s.length else n := by
  unfold lastChars
  split
  next => rfl
  next => rw [List.length_drop, Nat.sub_sub_self h]

/-! ### The text that is cut -/

theorem length_marker (m : ℕ) :
    (str (" …[TRUNCATED " ++ toString (m : ℤ) ++ " chars — full output is in the tool audit panel]… ")).length =
      63 + (Nat.repr m).length := by
  have hfirst : (str " …[TRUNCATED ").length = 13 := by
    rw [str, String.toList_ofList]
    rfl
  have hlast : (str " chars — full output is in the tool audit panel]… ").length = 50 := by
    rw [str, String.toList_ofList]
    rfl
  have hdigits : (str (toString (m : ℤ))).length = (Nat.repr m).length := by
    rw [str, List.length_map, String.length_toList]
    rfl
  rw [str_append, str_append, List.length_append, List.length_append, hfirst, hlast, hdigits]
  omega

theorem cut_length_le_iff (limit : ℕ) (s : Str) : (cut limit s).length ≤ limit ↔ Fits limit s.length := by
  unfold cut Fits
  by_cases h : s.length ≤ limit
  · rw [if_pos h]
    exact iff_of_true h (.inl h)
  · rw [if_neg h, or_iff_right h]
    have homitted : ((s.length : ℤ) - (limit * 7 / 10 : ℕ) - (limit * 2 / 10 : ℕ)) =
        ((s.length - limit * 7 / 10 - limit * 2 / 10 : ℕ) : ℤ) := by omega
    have htail := length_lastChars (show limit * 2 / 10 ≤ s.length by omega)
    simp only [homitted, List.length_append, List.length_take, length_marker, htail]
    rw [Nat.min_eq_left (by omega)]
    split
    next => omega
    next => rfl

/-! ### A long string of hex digits -/

/-- A letter or a digit of `0x` and of hex digits. -/
def Hex (x : CodePoint) : Prop :=
  0x30 ≤ x.val ∧ x.val ≤ 0x39 ∨ 0x41 ≤ x.val ∧ x.val ≤ 0x46 ∨ 0x61 ≤ x.val ∧ x.val ≤ 0x66 ∨ x.val = 0x78

instance (x : CodePoint) : Decidable (Hex x) := inferInstanceAs (Decidable (_ ∨ _))

theorem length_escape_hex {x : CodePoint} (h : Hex x) : (escape x).length = 1 := by
  have hp : printable x.val = true := by
    simp only [printable, Bool.and_eq_true, decide_eq_true_eq]
    unfold Hex at h
    omega
  unfold Hex at h
  rw [escape, if_neg (by omega), if_neg (by omega), if_neg (by omega), if_neg (by omega), if_neg (by omega),
    if_neg (by omega), if_neg (by omega), if_pos hp, List.length_singleton]

theorem hex_of_isHexDigit {x : CodePoint} (h : isHexDigit x = true) : Hex x := by
  obtain ⟨c, hc, rfl⟩ := List.mem_map.mp (List.contains_iff_mem.mp h)
  have hall : ("0123456789abcdefABCDEF".toList.all fun c => decide (Hex (Fin.ofNat 0x110000 c.toNat))) = true := by
    rw [String.toList_ofList]
    rfl
  exact of_decide_eq_true (List.all_eq_true.mp hall c hc)

theorem hex_of_isDigit {c : Char} (h : c.isDigit = true) : Hex (Fin.ofNat 0x110000 c.toNat) := by
  simp only [Char.isDigit, Bool.and_eq_true, decide_eq_true_eq] at h
  have h1 : 0x30 ≤ c.toNat := h.1
  have h2 : c.toNat ≤ 0x39 := h.2
  exact .inl (by rw [val_ofNat_char]; exact ⟨h1, h2⟩)

theorem escapes_append (s t : Str) : escapes (s ++ t) = escapes s ++ escapes t := List.flatMap_append

/-- Every character is written as it is. -/
theorem length_escapes_hex {s : Str} (h : ∀ x ∈ s, Hex x) : (escapes s).length = s.length := by
  induction s with
  | nil => rfl
  | cons x s ih =>
    obtain ⟨hx, hs⟩ := List.forall_mem_cons.mp h
    rw [escapes, List.flatMap_cons, List.length_append, List.length_cons, length_escape_hex hx, ← escapes, ih hs,
      Nat.add_comm]

/-- What stands behind the parts of a long string. -/
def note (n : ℕ) : Str := str (" [hex truncated, total " ++ toString n ++ " chars — full value in audit panel]")

/-- A string stays as it is, or is a long one of hex digits. -/
theorem shapeString_cases (s : Str) : shapeString s = s ∨ 200 < s.length ∧ (∀ x ∈ s, Hex x) ∧
    shapeString s = s.take 96 ++ str "…" ++ lastChars 24 s ++ note s.length := by
  unfold shapeString
  split
  next h =>
    obtain ⟨hstart, hlength, hdigits⟩ := h
    refine .inr ⟨hlength, fun x hx => ?_, rfl⟩
    obtain ⟨t, rfl⟩ := List.isPrefixOf_iff_prefix.mp hstart
    have htwo : str "0x" = [Fin.ofNat _ '0'.toNat, Fin.ofNat _ 'x'.toNat] := by
      rw [str, String.toList_ofList]
      rfl
    rw [htwo] at hx hdigits
    simp only [List.cons_append, List.nil_append, List.mem_cons, List.drop_succ_cons, List.drop_zero] at hx hdigits
    obtain rfl | rfl | hx := hx
    · exact of_decide_eq_true rfl
    · exact of_decide_eq_true rfl
    · exact hex_of_isHexDigit (List.all_eq_true.mp hdigits x hx)
  next => exact .inl rfl

theorem length_escapes_note (n : ℕ) : (escapes (note n)).length = 63 + (Nat.repr n).length := by
  have hfirst : (escapes (str " [hex truncated, total ")).length = 23 := by
    rw [str, String.toList_ofList]
    rfl
  have hlast : (escapes (str " chars — full value in audit panel]")).length = 40 := by
    rw [str, String.toList_ofList]
    rfl
  have hdigits : (escapes (str (toString n))).length = (Nat.repr n).length := by
    rw [length_escapes_hex, str, List.length_map, String.length_toList]
    · rfl
    · intro x hx
      obtain ⟨c, hc, rfl⟩ := List.mem_map.mp hx
      rw [toString_nat] at hc
      exact hex_of_isDigit (Nat.isDigit_of_mem_toDigits (by decide) (by decide) hc)
  rw [note, str_append, str_append, escapes_append, escapes_append, List.length_append, List.length_append, hfirst, hlast,
    hdigits]
  omega

/-- A number has far fewer digits than it counts. -/
theorem length_repr_le {n : ℕ} (h : 200 < n) : (Nat.repr n).length + 189 ≤ n := by
  have hpow : n < 10 ^ (n - 189) := by
    have hsmall : n - 192 < 10 ^ (n - 192) := Nat.lt_pow_self (by decide)
    have hsplit : 10 ^ (n - 189) = 10 ^ (n - 192) * 1000 := by
      rw [show n - 189 = n - 192 + 3 by omega, Nat.pow_add]
    omega
  have hle := (Nat.length_repr_le_iff (n := n) (k := n - 189) (by omega)).mpr hpow
  omega

theorem length_escapes_shapeString (s : Str) : (escapes (shapeString s)).length ≤ (escapes s).length := by
  obtain hs | ⟨hlength, hhex, hs⟩ := shapeString_cases s
  · rw [hs]
  · have hlast : lastChars 24 s = s.drop (s.length - 24) := if_neg (by decide)
    have hmark : (escapes (str "…")).length = 6 := by
      rw [str, String.toList_ofList]
      rfl
    have hrepr := length_repr_le hlength
    rw [hs, hlast, length_escapes_hex hhex]
    simp only [escapes_append, List.length_append, hmark, length_escapes_note]
    rw [length_escapes_hex fun x hx => hhex x (List.mem_of_mem_take hx),
      length_escapes_hex fun x hx => hhex x (List.mem_of_mem_drop hx), List.length_take, List.length_drop]
    omega

theorem shapeString_idempotent (s : Str) : shapeString (shapeString s) = shapeString s := by
  obtain hs | ⟨hlength, -, hs⟩ := shapeString_cases s
  · rw [hs, hs]
  · obtain h | ⟨-, hhex, -⟩ := shapeString_cases (shapeString s)
    · exact h
    · have hmark : Fin.ofNat _ '…'.toNat ∈ shapeString s := by
        rw [hs]
        simp [str]
      have hnot : ¬ Hex (Fin.ofNat _ '…'.toNat) := of_decide_eq_false rfl
      exact absurd (hhex _ hmark) hnot

/-! ### Shaped results -/

theorem shapeList_eq (items : List ToolResult) : shapeList items = items.map shape := by
  induction items with
  | nil => rfl
  | cons v vs ih => rw [shapeList, ih, List.map_cons]

theorem shapeDict_eq (fields : List (Key × ToolResult)) : shapeDict fields = fields.map fun f => (f.1, shape f.2) := by
  induction fields with
  | nil => rfl
  | cons f fs ih => rw [shapeDict, ih, List.map_cons]

theorem shape_idempotent (v : ToolResult) : shape (shape v) = shape v := by
  induction v using ToolResult.byMembers with
  | null => rfl
  | bool b => rfl
  | num n => rfl
  | nonFinite x => rfl
  | str s => rw [shape, shape, shapeString_idempotent]
  | list items ih =>
    rw [shape, shape, shapeList_eq, shapeList_eq, List.map_map]
    exact congrArg ToolResult.list (List.map_congr_left ih)
  | tuple items ih => rfl
  | dict fields ih =>
    rw [shape, shape, shapeDict_eq, shapeDict_eq, List.map_map]
    exact congrArg ToolResult.dict (List.map_congr_left fun f hf => Prod.ext rfl (ih f hf))
  | object text => rfl

theorem encodeItems_eq_some_iff {items : List ToolResult} {ws : List Value} :
    encodeItems items = some ws ↔ List.Forall₂ (fun v w => encode v = some w) items ws := by
  induction items generalizing ws with
  | nil => simp [encodeItems, eq_comm]
  | cons v vs ih =>
    simp only [encodeItems, Option.bind_eq_some_iff, Option.map_eq_some_iff, List.forall₂_cons_left_iff, ih]
    constructor
    · rintro ⟨w, hw, ws', hws, rfl⟩
      exact ⟨w, ws', hw, hws, rfl⟩
    · rintro ⟨w, ws', hw, hws, rfl⟩
      exact ⟨w, hw, ws', hws, rfl⟩

theorem encodeFields_eq_some_iff {fields : List (Key × ToolResult)} {ws : List (Str × Value)} :
    encodeFields fields = some ws ↔ List.Forall₂ (fun f w => f.1.name = some w.1 ∧ encode f.2 = some w.2) fields ws := by
  induction fields generalizing ws with
  | nil => simp [encodeFields, eq_comm]
  | cons f fs ih =>
    simp only [encodeFields, Option.bind_eq_some_iff, Option.map_eq_some_iff, List.forall₂_cons_left_iff, ih]
    constructor
    · rintro ⟨k, hk, w, hw, ws', hws, rfl⟩
      exact ⟨(k, w), ws', ⟨hk, hw⟩, hws, rfl⟩
    · rintro ⟨⟨k, w⟩, ws', ⟨hk, hw⟩, hws, rfl⟩
      exact ⟨k, hk, w, hw, ws', hws, rfl⟩

/-- Whatever is related to a list member by member has a replacement, member by member. -/
theorem exists_forall₂ {α β γ : Type} {R : α → β → Prop} {S : γ → β → Prop} {T : β → β → Prop} {f : α → γ} {xs : List α}
    {ys : List β} (h : List.Forall₂ R xs ys) (hstep : ∀ x ∈ xs, ∀ y, R x y → ∃ y', S (f x) y' ∧ T y' y) :
    ∃ ys', List.Forall₂ S (xs.map f) ys' ∧ List.Forall₂ T ys' ys := by
  induction h with
  | nil => exact ⟨[], .nil, .nil⟩
  | @cons x y xs ys hxy _ ih =>
    obtain ⟨hx, hxs⟩ := List.forall_mem_cons.mp hstep
    obtain ⟨y', hs, ht⟩ := hx y hxy
    obtain ⟨ys', hss, hts⟩ := ih hxs
    exact ⟨y' :: ys', .cons hs hss, .cons ht hts⟩

/-- What is written for a shaped result is no longer. -/
theorem shape_notLonger (v : ToolResult) : ∀ w, encode v = some w →
    ∃ w', encode (shape v) = some w' ∧ (dump w').length ≤ (dump w).length := by
  induction v using ToolResult.byMembers with
  | null => exact fun w hw => ⟨w, hw, Nat.le_refl _⟩
  | bool b => exact fun w hw => ⟨w, hw, Nat.le_refl _⟩
  | num n => exact fun w hw => ⟨w, hw, Nat.le_refl _⟩
  | nonFinite x => exact fun w hw => ⟨w, hw, Nat.le_refl _⟩
  | str s =>
    intro w hw
    cases hw
    refine ⟨.str (shapeString s), rfl, ?_⟩
    have hle := length_escapes_shapeString s
    simp only [dump, dumpStr, List.length_append, List.length_cons]
    omega
  | list items ih =>
    intro w hw
    obtain ⟨ws, hws, rfl⟩ := Option.map_eq_some_iff.mp hw
    obtain ⟨ws', hws', hle⟩ := exists_forall₂ (S := fun v w => encode v = some w)
      (T := fun v w => (dump v).length ≤ (dump w).length) (f := shape) (encodeItems_eq_some_iff.mp hws) ih
    refine ⟨.arr ws', ?_, length_dump_arr_le hle⟩
    rw [shape, encode, shapeList_eq, encodeItems_eq_some_iff.mpr hws']
    rfl
  | tuple items ih => exact fun w hw => ⟨w, hw, Nat.le_refl _⟩
  | dict fields ih =>
    intro w hw
    obtain ⟨ws, hws, rfl⟩ := Option.map_eq_some_iff.mp hw
    obtain ⟨ws', hws', hle⟩ := exists_forall₂ (S := fun f w => f.1.name = some w.1 ∧ encode f.2 = some w.2)
      (T := fun f g => f.1 = g.1 ∧ (dump f.2).length ≤ (dump g.2).length) (f := fun f => (f.1, shape f.2))
      (encodeFields_eq_some_iff.mp hws) fun f hf y hy => by
        obtain ⟨w', hw', hle⟩ := ih f hf y.2 hy.2
        exact ⟨(y.1, w'), ⟨hy.1, hw'⟩, rfl, hle⟩
    refine ⟨.obj ws', ?_, length_dump_obj_le hle⟩
    rw [shape, encode, shapeDict_eq, encodeFields_eq_some_iff.mpr hws']
    rfl
  | object text => exact fun w hw => ⟨w, hw, Nat.le_refl _⟩

/-! ### Native values -/

theorem unpaired_of_not_isHigh {s : Str} (h : ∀ x ∈ s, isHigh x = false) : Unpaired s := by
  induction s with
  | nil => exact List.IsChain.nil
  | cons x s ih =>
    obtain ⟨hx, hs⟩ := List.forall_mem_cons.mp h
    refine unpaired_cons.mpr ⟨fun y _ => ?_, ih hs⟩
    rw [hx, Bool.false_and]

theorem not_isHigh_str (t : String) : ∀ x ∈ str t, isHigh x = false := by
  intro x hx
  obtain ⟨c, -, rfl⟩ := List.mem_map.mp hx
  exact not_isHigh_char c

theorem unpaired_shapeString {s : Str} (h : Unpaired s) : Unpaired (shapeString s) := by
  obtain hs | ⟨-, hhex, hs⟩ := shapeString_cases s
  · rwa [hs]
  · have hlow : ∀ x ∈ s, isHigh x = false := by
      intro x hx
      have hx := hhex x hx
      unfold Hex at hx
      simp only [isHigh, Bool.and_eq_false_iff, decide_eq_false_iff_not]
      omega
    have hlast : lastChars 24 s = s.drop (s.length - 24) := if_neg (by decide)
    rw [hs, hlast]
    apply unpaired_of_not_isHigh
    simp only [List.forall_mem_append]
    have hhead : ∀ x ∈ s.take 96, isHigh x = false := fun x hx => hlow x (List.mem_of_mem_take hx)
    have htail : ∀ x ∈ s.drop (s.length - 24), isHigh x = false := fun x hx => hlow x (List.mem_of_mem_drop hx)
    exact ⟨⟨⟨hhead, not_isHigh_str _⟩, htail⟩, not_isHigh_str _⟩

theorem shapeItems_eq (items : List Value) : shapeItems items = items.map shapeValue := by
  induction items with
  | nil => rfl
  | cons v vs ih => rw [shapeItems, ih, List.map_cons]

theorem shapeFields_eq (fields : List (Str × Value)) : shapeFields fields = fields.map fun f => (f.1, shapeValue f.2) := by
  induction fields with
  | nil => rfl
  | cons f fs ih => rw [shapeFields, ih, List.map_cons]

theorem plain_shapeValue {v : Value} (h : Plain v) : Plain (shapeValue v) := by
  induction v using Value.byMembers with
  | null => exact h
  | bool b => exact h
  | num n => exact h
  | nonFinite x => exact h
  | str s => exact ⟨rfl, List.forall_mem_singleton.mpr (unpaired_shapeString (List.forall_mem_singleton.mp h.2))⟩
  | arr items ih =>
    rw [shapeValue, shapeItems_eq, plain_arr]
    exact List.forall_mem_map.mpr fun v hv => ih v hv (plain_arr.mp h v hv)
  | obj fields ih =>
    rw [shapeValue, shapeFields_eq, plain_obj]
    exact List.forall_mem_map.mpr fun f hf => ⟨(plain_obj.mp h f hf).1, ih f hf (plain_obj.mp h f hf).2⟩

theorem uniqueNames_shapeValue {v : Value} (h : UniqueNames v) : UniqueNames (shapeValue v) := by
  induction h with
  | null => exact .null
  | bool b => exact .bool b
  | num n => exact .num n
  | nonFinite x => exact .nonFinite x
  | str s => exact .str _
  | arr _ ih =>
    rw [shapeValue, shapeItems_eq]
    exact .arr (List.forall_mem_map.mpr ih)
  | obj hnames _ ih =>
    rw [shapeValue, shapeFields_eq]
    refine .obj ?_ (List.forall_mem_map.mpr ih)
    rwa [List.map_map]

theorem ofItems_eq (items : List Value) : ofItems items = items.map ofValue := by
  induction items with
  | nil => rfl
  | cons v vs ih => rw [ofItems, ih, List.map_cons]

theorem ofFields_eq (fields : List (Str × Value)) : ofFields fields = fields.map fun f => (.str f.1, ofValue f.2) := by
  induction fields with
  | nil => rfl
  | cons f fs ih => rw [ofFields, ih, List.map_cons]

theorem shape_ofValue (v : Value) : shape (ofValue v) = ofValue (shapeValue v) := by
  induction v using Value.byMembers with
  | null => rfl
  | bool b => rfl
  | num n => rfl
  | nonFinite x => rfl
  | str s => rfl
  | arr items ih =>
    rw [ofValue, shape, shapeValue, ofValue, ofItems_eq, shapeList_eq, shapeItems_eq, ofItems_eq, List.map_map,
      List.map_map]
    exact congrArg ToolResult.list (List.map_congr_left ih)
  | obj fields ih =>
    rw [ofValue, shape, shapeValue, ofValue, ofFields_eq, shapeDict_eq, shapeFields_eq, ofFields_eq, List.map_map,
      List.map_map]
    exact congrArg ToolResult.dict (List.map_congr_left fun f hf => Prod.ext rfl (ih f hf))

theorem encode_ofValue (v : Value) : encode (ofValue v) = some v := by
  induction v using Value.byMembers with
  | null => rfl
  | bool b => rfl
  | num n => rfl
  | nonFinite x => rfl
  | str s => rfl
  | arr items ih =>
    have hitems : encodeItems (items.map ofValue) = some items :=
      encodeItems_eq_some_iff.mpr (List.forall₂_map_left_iff.mpr (List.forall₂_same.mpr ih))
    rw [ofValue, encode, ofItems_eq, hitems, Option.map_some]
  | obj fields ih =>
    have hfields : encodeFields (fields.map fun f => (.str f.1, ofValue f.2)) = some fields :=
      encodeFields_eq_some_iff.mpr (List.forall₂_map_left_iff.mpr (List.forall₂_same.mpr fun f hf => ⟨rfl, ih f hf⟩))
    rw [ofValue, encode, ofFields_eq, hfields, Option.map_some]

theorem dumps_ofValue (v : Value) : dumps (ofValue v) = some (points (dump v)) := by
  rw [dumps, encode_ofValue, Option.map_some]

/-- On a native value this is the content of the agent loop. -/
theorem boundedToolContent_ofValue {tooDeep : ToolResult → Bool} {v : Value} (h : tooDeep (ofValue v) = false) (limit : ℕ) :
    boundedToolContent tooDeep limit (ofValue v) = some (AgentLoop.boundedToolContent limit v) := by
  rw [boundedToolContent, attempt, h, if_neg (by decide), shape_ofValue, dumps_ofValue]
  rfl

/-! ### Every result -/

/-- The content is bounded unless what is kept of the text and the marker are above the limit. -/
theorem tool_results_bounded_iff (py : Loads) (tooDeep : ToolResult → Bool) (limit : ℕ) (v : ToolResult) :
    Bounded py tooDeep limit v ↔ ∀ t, dumps (attempt tooDeep v) = some t → Fits limit t.length := by
  constructor
  · intro h t ht
    rw [← cut_length_le_iff]
    exact h.short _ (by rw [boundedToolContent, ht]; rfl)
  · intro h
    refine ⟨?_, ?_, shape_idempotent v, ?_⟩
    · intro t ht
      obtain ⟨s, hs, rfl⟩ := Option.map_eq_some_iff.mp ht
      exact (cut_length_le_iff limit s).mpr (h s hs)
    · rintro w t rfl hw hdeep ht hle
      refine ⟨?_, shapeValue w, shape_ofValue w, ?_⟩
      · rw [boundedToolContent, attempt, hdeep, if_neg (by decide), ht, Option.map_some, cut, if_pos hle]
      · obtain ⟨u, hu⟩ := hw.document
        rw [shape_ofValue, dumps_ofValue] at ht
        cases ht
        have hread := read_dump_of_plain (plain_shapeValue (plain_of_read hu))
        exact py.reads _ _ hread (uniqueNames_shapeValue hw.uniqueNames)
    · intro t ht
      obtain ⟨w, hw, rfl⟩ := Option.map_eq_some_iff.mp ht
      obtain ⟨w', hw', hle⟩ := shape_notLonger v w hw
      refine ⟨points (dump w'), by rw [dumps, hw', Option.map_some], ?_⟩
      simpa [points] using hle

/-- A limit with room for the marker holds for every text whose length has at most `k` digits. -/
theorem fits_of_room {limit n k : ℕ} (hk : 0 < k) (hroom : limit * 7 / 10 + (63 + k) + limit * 2 / 10 ≤ limit)
    (hn : n < 10 ^ k) : Fits limit n := by
  have hdigits := (Nat.length_repr_le_iff (n := n - limit * 7 / 10 - limit * 2 / 10) hk).mpr (by omega)
  exact .inr (by omega)

/-! ### A limit of a hundred characters -/

/-- `json.loads` for the grammar. -/
def grammar : Loads where
  loads s := read (s.map fun x => Char.ofNat x.val)
  reads t v h _ := by
    have hback : (points t).map (fun x => Char.ofNat x.val) = t := by
      rw [points, List.map_map]
      refine (List.map_congr_left fun c _ => ?_).trans (List.map_id t)
      rw [Function.comp_apply, val_ofNat_char, Char.ofNat_toNat, id]
    rw [hback, h]

def longText : Str := List.replicate 120 0x61

theorem content_above_limit : ¬ Bounded grammar (fun _ => false) 100 (.str longText) := by
  intro h
  have hshape : shapeString longText = longText :=
    (shapeString_cases longText).resolve_right fun ⟨hlength, _⟩ => by simp [longText] at hlength
  have hdumps : dumps (attempt (fun _ => false) (.str longText)) = some (points (dumpStr longText)) := by
    change dumps (.str (shapeString longText)) = _
    rw [hshape]
    rfl
  have hfits := (cut_length_le_iff 100 _).mp (h.short _ (by rw [boundedToolContent, hdumps, Option.map_some]))
  have hlength : (points (dumpStr longText)).length = 122 := by rfl
  rw [hlength] at hfits
  exact absurd hfits (by decide)

end ReleaseValidation.AiAgent.ToolResults
