import Mathlib.Data.Rat.Defs
import ReleaseValidation.Foundations.Programs

/-! # JSON values, as the services hold them

The values of JSON columns and of decoded messages, with the reads and writes the
services make on them: an operation that the type of the value does not have raises.
An object keeps its keys in the order of insertion.
-/
namespace ReleaseValidation.Store
open Programs

inductive Json
  | null
  | bool (b : Bool)
  | int (n : ℤ)
  | float (x : ℚ)
  | str (s : String)
  | arr (items : List Json)
  | obj (fields : List (String × Json))

namespace Json

/-- Whether a condition on the value succeeds. -/
def truthy : Json → Bool
  | null => false
  | bool b => b
  | int n => n != 0
  | float x => x != 0
  | str s => s != ""
  | arr items => !items.isEmpty
  | obj fields => !fields.isEmpty

def typeName : Json → String
  | null => "NoneType"
  | bool _ => "bool"
  | int _ => "int"
  | float _ => "float"
  | str _ => "str"
  | arr _ => "list"
  | obj _ => "dict"

def noAttribute (j : Json) (name : String) : Err :=
  .exception ("'" ++ j.typeName ++ "' object has no attribute '" ++ name ++ "'")

/-- `len(j)`. -/
def len : Json → Except Err ℕ
  | arr items => .ok items.length
  | obj fields => .ok fields.length
  | str s => .ok s.length
  | j => .error (.exception ("object of type '" ++ j.typeName ++ "' has no len()"))

/-- What a loop over the value visits. -/
def elements : Json → Except Err (List Json)
  | arr items => .ok items
  | obj fields => .ok (fields.map fun kv => str kv.1)
  | str s => .ok (s.toList.map fun c => str c.toString)
  | j => .error (.exception ("'" ++ j.typeName ++ "' object is not iterable"))

/-- `j.get(key, default)`. -/
def get (j : Json) (key : String) (default : Json) : Except Err Json :=
  match j with
  | obj fields => .ok ((fields.lookup key).getD default)
  | j => .error (j.noAttribute "get")

/-- `j[key]`. -/
def item (j : Json) (key : String) : Except Err Json :=
  match j with
  | obj fields =>
    match fields.lookup key with
    | some v => .ok v
    | none => .error (.exception ("'" ++ key ++ "'"))
  | arr _ => .error (.exception "list indices must be integers or slices, not str")
  | str _ => .error (.exception "string indices must be integers, not 'str'")
  | j => .error (.exception ("'" ++ j.typeName ++ "' object is not subscriptable"))

/-- `a or b`. -/
def orElse (a b : Json) : Json := if a.truthy then a else b

/-- `j[:n]`. -/
def upTo (n : ℕ) : Json → Except Err Json
  | str s => .ok (str (String.ofList (s.toList.take n)))
  | arr items => .ok (arr (items.take n))
  | obj _ => .error (.exception ("slice(None, " ++ toString n ++ ", None)"))
  | j => .error (.exception ("'" ++ j.typeName ++ "' object is not subscriptable"))

/-- `isinstance(a, dict) and k in a`. -/
def owns (k : String) : Json → Bool
  | obj fields => (fields.lookup k).isSome
  | _ => false

end Json

/-- `fields[k] = v`. -/
def setField (k : String) (v : Json) : List (String × Json) → List (String × Json)
  | [] => [(k, v)]
  | (k', v') :: fields => if k' = k then (k, v) :: fields else (k', v') :: setField k v fields

end ReleaseValidation.Store
