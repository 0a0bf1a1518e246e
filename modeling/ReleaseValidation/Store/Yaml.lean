import ReleaseValidation.Store.Decoded

/-! # YAML documents, decoded

The values that the safe loader builds, with the reads and writes that the services make on
them. A mapping keeps its members in order; its keys are values like any others, and a name
is looked up among those that are texts.
-/
namespace ReleaseValidation.Store
open JsonTexts Programs

inductive Yaml
  | null
  | bool (b : Bool)
  | int (n : ℤ)
  | str (s : Str)
  | seq (items : List Yaml)
  | map (members : List (Yaml × Yaml))
  -- a float, a date, bytes, a set, or a container that holds itself
  | other (typeName : String) (truthy hashable : Bool) (elements : Option (List Yaml))

structure LoadError where
  isYamlError : Bool
  text : String

namespace Yaml

def typeName : Yaml → String
  | null => "NoneType"
  | bool _ => "bool"
  | int _ => "int"
  | str _ => "str"
  | seq _ => "list"
  | map _ => "dict"
  | other t _ _ _ => t

def truthy : Yaml → Bool
  | null => false
  | bool b => b
  | int n => n != 0
  | str s => !s.isEmpty
  | seq items => !items.isEmpty
  | map members => !members.isEmpty
  | other _ t _ _ => t

def hashable : Yaml → Bool
  | seq _ | map _ => false
  | other _ _ h _ => h
  | _ => true

/-- `a or b`. -/
def orElse (a b : Yaml) : Yaml := if a.truthy then a else b

def text (s : String) : Yaml := str (Value.key s)

def isText (s : Str) : Yaml → Bool
  | str t => t == s
  | _ => false

/-- A text alone stands for the list of it. -/
def listed : Yaml → Yaml
  | str s => seq [str s]
  | v => v

/-- What a loop over the value visits. -/
def elements (v : Yaml) : Except Err (List Yaml) :=
  match v with
  | seq items => .ok items
  | map members => .ok (members.map Prod.fst)
  | str s => .ok (s.map fun c => str [c])
  | other _ _ _ (some items) => .ok items
  | v => .error (.exception ("'" ++ v.typeName ++ "' object is not iterable"))

/-- `v in {…}`, for a set of texts. -/
def isIn (v : Yaml) (names : List Str) : Except Err Bool :=
  if v.hashable then .ok (names.any fun s => v.isText s)
  else .error (.exception ("unhashable type: '" ++ v.typeName ++ "'"))

/-- The method of a text, or the error of its absence. -/
def asText (v : Yaml) (method : String) : Except Err Str :=
  match v with
  | str s => .ok s
  | v => .error (.exception ("'" ++ v.typeName ++ "' object has no attribute '" ++ method ++ "'"))

end Yaml

abbrev Members := List (Yaml × Yaml)

namespace Members

def get? (m : Members) (name : String) : Option Yaml := (m.find? fun kv => kv.1.isText (Value.key name)).map Prod.snd

def getD (m : Members) (name : String) (default : Yaml) : Yaml := (m.get? name).getD default

def setItem (m : Members) (name : String) (v : Yaml) : Members :=
  if (m.get? name).isSome then m.map fun kv => if kv.1.isText (Value.key name) then (kv.1, v) else kv
  else m ++ [(.text name, v)]

def setDefault (m : Members) (name : String) (v : Yaml) : Members :=
  if (m.get? name).isSome then m else m ++ [(.text name, v)]

/-- The members whose key is not `name`. -/
def without (m : Members) (name : String) : Members := m.filter fun kv => !kv.1.isText (Value.key name)

end Members

namespace Yaml

/-- `v[name]`. -/
def item (v : Yaml) (name : String) : Except Err Yaml :=
  match v with
  | map m =>
    match Members.get? m name with
    | some x => .ok x
    | none => .error (.exception ("'" ++ name ++ "'"))
  | seq _ => .error (.exception "list indices must be integers or slices, not str")
  | str _ => .error (.exception "string indices must be integers, not 'str'")
  | v => .error (.exception ("'" ++ v.typeName ++ "' object is not subscriptable"))

/-- `v.get(name, default)`. -/
def get (v : Yaml) (name : String) (default : Yaml) : Except Err Yaml :=
  match v with
  | map m => .ok (Members.getD m name default)
  | v => .error (.exception ("'" ++ v.typeName ++ "' object has no attribute 'get'"))

theorem isText_iff {s : Str} {v : Yaml} : v.isText s = true ↔ v = str s := by
  cases v with
  | str t =>
    change (t == s) = true ↔ _
    rw [beq_iff_eq, Yaml.str.injEq]
  | _ => exact iff_of_false (by nofun) (by nofun)

end Yaml

theorem toNat_lt (c : Char) : c.toNat < 0x110000 := by
  rcases c.valid with h | h
  · exact h.trans (by decide)
  · exact h.2

theorem key_injective : Function.Injective Value.key := by
  intro s t h
  have hinj : Function.Injective fun c : Char => (Fin.ofNat 0x110000 c.toNat) := by
    intro c d hcd
    have hval : c.toNat % 0x110000 = d.toNat % 0x110000 := congrArg Fin.val hcd
    rw [Nat.mod_eq_of_lt (toNat_lt c), Nat.mod_eq_of_lt (toNat_lt d)] at hval
    exact Char.toNat_inj.mp hval
  exact String.toList_inj.mp (hinj.list_map h)

namespace Members
variable {m : Members} {k name : String} {v : Yaml}

theorem isText_of_ne (hk : k ≠ name) {x : Yaml} (hx : x.isText (Value.key name) = true) :
    x.isText (Value.key k) = false := by
  rw [Yaml.isText_iff.mp hx]
  exact beq_eq_false_iff_ne.mpr fun h => hk (key_injective h).symm

theorem get?_append_single (m : Members) (name : String) (v : Yaml) (k : String) :
    get? (m ++ [(.text name, v)]) k = (m.get? k).or (if k = name then some v else none) := by
  unfold get?
  rw [List.find?_append, Option.map_or]
  congr 1
  by_cases hk : k = name
  · subst hk
    rw [List.find?_cons_of_pos (by exact Yaml.isText_iff.mpr rfl), if_pos rfl]
    rfl
  · have hfalse : (Yaml.text name).isText (Value.key k) = false := isText_of_ne hk (Yaml.isText_iff.mpr rfl)
    rw [List.find?_cons_of_neg (by rw [hfalse]; nofun), if_neg hk]
    rfl

theorem get?_map_ne (hk : k ≠ name) :
    get? (m.map fun kv => if kv.1.isText (Value.key name) then (kv.1, v) else kv) k = m.get? k := by
  induction m with
  | nil => rfl
  | cons kv m ih =>
    unfold get? at ih ⊢
    rw [List.map_cons]
    by_cases hn : kv.1.isText (Value.key name) = true
    · have hfalse := isText_of_ne hk hn
      rw [if_pos hn, List.find?_cons_of_neg (by rw [hfalse]; nofun), List.find?_cons_of_neg (by rw [hfalse]; nofun)]
      exact ih
    · rw [if_neg hn]
      by_cases hkv : kv.1.isText (Value.key k) = true
      · rw [List.find?_cons_of_pos (by exact hkv), List.find?_cons_of_pos (by exact hkv)]
      · rw [List.find?_cons_of_neg (by exact hkv), List.find?_cons_of_neg (by exact hkv)]
        exact ih

@[simp] theorem get?_setItem_ne (hk : k ≠ name) : (m.setItem name v).get? k = m.get? k := by
  unfold setItem
  split
  next => exact get?_map_ne hk
  next => rw [get?_append_single, if_neg hk, Option.or_none]

@[simp] theorem get?_setDefault_ne (hk : k ≠ name) : (m.setDefault name v).get? k = m.get? k := by
  unfold setDefault
  split
  next => rfl
  next => rw [get?_append_single, if_neg hk, Option.or_none]

@[simp] theorem get?_setDefault_self : (m.setDefault name v).get? name = some (m.getD name v) := by
  unfold setDefault getD
  cases h : m.get? name with
  | some x => exact h
  | none => rw [if_neg (by nofun), get?_append_single, h, if_pos rfl]; rfl

@[simp] theorem getD_setItem_ne (hk : k ≠ name) (default : Yaml) : (m.setItem name v).getD k default = m.getD k default :=
  congrArg (Option.getD · default) (get?_setItem_ne hk)

theorem without_setItem : (m.setItem name v).without name = m.without name := by
  unfold setItem without
  split
  next =>
    rw [List.filter_map]
    have hkeys : (fun kv : Yaml × Yaml => !kv.1.isText (Value.key name)) ∘
        (fun kv => if kv.1.isText (Value.key name) = true then (kv.1, v) else kv) =
          fun kv => !kv.1.isText (Value.key name) := by
      funext kv
      simp only [Function.comp_apply]
      split <;> rfl
    rw [hkeys]
    have hid : ∀ kv ∈ m.filter (fun kv => !kv.1.isText (Value.key name)),
        (if kv.1.isText (Value.key name) = true then (kv.1, v) else kv) = kv := by
      intro kv hkv
      have hfalse := (List.mem_filter.mp hkv).2
      rw [Bool.not_eq_true'] at hfalse
      rw [if_neg (by rw [hfalse]; nofun)]
    rw [List.map_congr_left hid, List.map_id']
  next =>
    have hself : (Yaml.text name).isText (Value.key name) = true := Yaml.isText_iff.mpr rfl
    rw [List.filter_append, List.filter_cons_of_neg (by rw [hself]; nofun), List.filter_nil, List.append_nil]

end Members

end ReleaseValidation.Store
