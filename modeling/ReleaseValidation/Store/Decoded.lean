import ReleaseValidation.Foundations.JsonTexts
import ReleaseValidation.Foundations.Programs

/-! # Decoded documents

The reads that the services make on a document that the interpreter's decoder returns. An
operation that the type of the value does not have raises.
-/
namespace ReleaseValidation.JsonTexts.Value
open Programs

/-- The code points of a text of the source. -/
def key (s : String) : Str := s.toList.map fun c => Fin.ofNat _ c.toNat

def typeName : Value → String
  | null => "NoneType"
  | bool _ => "bool"
  | num n => if n.literal.any fun c => c == '.' || c == 'e' || c == 'E' then "float" else "int"
  | nonFinite _ => "float"
  | str _ => "str"
  | arr _ => "list"
  | obj _ => "dict"

/-- Whether a condition on the value succeeds. A number is zero if no digit before its exponent is another. -/
def truthy : Value → Bool
  | null => false
  | bool b => b
  | num n => (n.literal.takeWhile fun c => c != 'e' && c != 'E').any fun c => c.isDigit && c != '0'
  | nonFinite _ => true
  | str s => !s.isEmpty
  | arr items => !items.isEmpty
  | obj fields => !fields.isEmpty

/-- `v[name]`. -/
def item (v : Value) (name : String) : Except Err Value :=
  match v with
  | obj fields =>
    match fields.lookup (key name) with
    | some x => .ok x
    | none => .error (.exception ("'" ++ name ++ "'"))
  | arr _ => .error (.exception "list indices must be integers or slices, not str")
  | str _ => .error (.exception "string indices must be integers, not 'str'")
  | v => .error (.exception ("'" ++ v.typeName ++ "' object is not subscriptable"))

/-- `v.get(name, default)`. -/
def get (v : Value) (name : String) (default : Value) : Except Err Value :=
  match v with
  | obj fields => .ok ((fields.lookup (key name)).getD default)
  | v => .error (.exception ("'" ++ v.typeName ++ "' object has no attribute 'get'"))

/-- What a loop over the value visits. -/
def elements : Value → Except Err (List Value)
  | arr items => .ok items
  | obj fields => .ok (fields.map fun kv => str kv.1)
  | str s => .ok (s.map fun c => str [c])
  | v => .error (.exception ("'" ++ v.typeName ++ "' object is not iterable"))

end ReleaseValidation.JsonTexts.Value
