import Mathlib.Data.List.Basic
import Mathlib.Data.Nat.Digits.Defs
import Mathlib.Data.Option.Basic

/-! # JSON as text

Values, the text that a serialiser confined to ASCII writes for them, and a strict reader of
the JSON grammar. A string is a list of code points, surrogates included. A number is known
by its literal; the three that are not finite have names that the grammar does not know.
An object keeps its members in order.
-/
namespace ReleaseValidation.JsonTexts

abbrev Text := List Char
abbrev CodePoint := Fin 0x110000
abbrev Str := List CodePoint

instance neZeroCodePoints : NeZero 0x110000 := ⟨by decide⟩
instance lawfulStr : LawfulBEq Str := inferInstance

/-! ### Numbers -/

/-- How far a literal has come. -/
inductive NumberState
  | start | minus | zero | whole | point | fraction | exponent | sign | power
  deriving DecidableEq, Repr

def NumberState.next (s : NumberState) (c : Char) : Option NumberState :=
  match s with
  | start =>
    if c = '-' then some minus else if c = '0' then some zero else if c.isDigit then some whole else none
  | minus => if c = '0' then some zero else if c.isDigit then some whole else none
  | zero => if c = '.' then some point else if c = 'e' ∨ c = 'E' then some exponent else none
  | whole =>
    if c.isDigit then some whole
    else if c = '.' then some point else if c = 'e' ∨ c = 'E' then some exponent else none
  | point => if c.isDigit then some fraction else none
  | fraction => if c.isDigit then some fraction else if c = 'e' ∨ c = 'E' then some exponent else none
  | exponent => if c = '+' ∨ c = '-' then some sign else if c.isDigit then some power else none
  | sign => if c.isDigit then some power else none
  | power => if c.isDigit then some power else none

def NumberState.accepts : NumberState → Bool
  | zero | whole | fraction | power => true
  | start | minus | point | exponent | sign => false

def isNumber (t : Text) : Bool := (t.foldlM NumberState.next .start).any NumberState.accepts

structure Number where
  literal : Text
  wellFormed : isNumber literal = true
  deriving DecidableEq

inductive NonFinite
  | nan | infinity | minusInfinity
  deriving DecidableEq, Repr

def NonFinite.name : NonFinite → Text
  | nan => "NaN".toList
  | infinity => "Infinity".toList
  | minusInfinity => "-Infinity".toList

/-! ### Values -/

inductive Value
  | null
  | bool (b : Bool)
  | num (n : Number)
  | nonFinite (x : NonFinite)
  | str (s : Str)
  | arr (items : List Value)
  | obj (fields : List (Str × Value))

/-! ### Writing -/

/-- The two surrogates of a code point beyond the basic plane. -/
def high (x : ℕ) : ℕ := 0xd800 + (x - 0x10000) / 0x400
def low (x : ℕ) : ℕ := 0xdc00 + (x - 0x10000) % 0x400

/-- `\uXXXX`. -/
def unitEscape (x : ℕ) : Text :=
  ['\\', 'u', Nat.digitChar (x / 0x1000 % 16), Nat.digitChar (x / 0x100 % 16), Nat.digitChar (x / 16 % 16),
    Nat.digitChar (x % 16)]

def printable (x : ℕ) : Bool := 0x20 ≤ x && x ≤ 0x7e

def escape (x : CodePoint) : Text :=
  if x.val = 0x22 then ['\\', '"']
  else if x.val = 0x5c then ['\\', '\\']
  else if x.val = 0x0a then ['\\', 'n']
  else if x.val = 0x0d then ['\\', 'r']
  else if x.val = 0x09 then ['\\', 't']
  else if x.val = 0x0c then ['\\', 'f']
  else if x.val = 0x08 then ['\\', 'b']
  else if printable x.val then [Char.ofNat x.val]
  else if x.val < 0x10000 then unitEscape x.val
  else unitEscape (high x.val) ++ unitEscape (low x.val)

def escapes (s : Str) : Text := s.flatMap escape

def dumpStr (s : Str) : Text := '"' :: escapes s ++ ['"']

/-- The texts with a comma and a space between them. -/
def joined : List Text → Text
  | [] => []
  | [t] => t
  | t :: u :: ts => t ++ ',' :: ' ' :: joined (u :: ts)

def dumpField (k : Str) (v : Text) : Text := dumpStr k ++ ':' :: ' ' :: v

mutual

def dump : Value → Text
  | .null => "null".toList
  | .bool true => "true".toList
  | .bool false => "false".toList
  | .num n => n.literal
  | .nonFinite x => x.name
  | .str s => dumpStr s
  | .arr items => '[' :: joined (dumpItems items) ++ [']']
  | .obj fields => '{' :: joined (dumpFields fields) ++ ['}']

def dumpItems : List Value → List Text
  | [] => []
  | v :: vs => dump v :: dumpItems vs

def dumpFields : List (Str × Value) → List Text
  | [] => []
  | (k, v) :: fs => dumpField k (dump v) :: dumpFields fs

end

/-! ### Reading -/

def isSpace (c : Char) : Bool := c == ' ' || c == '\t' || c == '\n' || c == '\r'

def skipSpace (t : Text) : Text := t.dropWhile isSpace

def hexDigit (c : Char) : Option ℕ :=
  if c.isDigit then some (c.toNat - '0'.toNat)
  else if 'a' ≤ c ∧ c ≤ 'f' then some (c.toNat - 'a'.toNat + 10)
  else if 'A' ≤ c ∧ c ≤ 'F' then some (c.toNat - 'A'.toNat + 10)
  else none

def hexUnit (a b c d : Char) : Option ℕ := do
  let a ← hexDigit a
  let b ← hexDigit b
  let c ← hexDigit c
  let d ← hexDigit d
  pure (((a * 16 + b) * 16 + c) * 16 + d)

def isHigh (x : CodePoint) : Bool := 0xd800 ≤ x.val && x.val < 0xdc00
def isLow (x : CodePoint) : Bool := 0xdc00 ≤ x.val && x.val < 0xe000

/-- The code point of a pair of surrogates. -/
def paired (x y : CodePoint) : CodePoint :=
  Fin.ofNat _ (0x10000 + (x.val - 0xd800) * 0x400 + (y.val - 0xdc00))

/-- A code point in front of a string; a high surrogate joins a low one after it. -/
def consUnit (x : CodePoint) : Str → Str
  | [] => [x]
  | y :: s => if isHigh x && isLow y then paired x y :: s else x :: y :: s

def simpleEscape (c : Char) : Option ℕ :=
  if c = '"' then some 0x22
  else if c = '\\' then some 0x5c
  else if c = '/' then some 0x2f
  else if c = 'b' then some 0x08
  else if c = 'f' then some 0x0c
  else if c = 'n' then some 0x0a
  else if c = 'r' then some 0x0d
  else if c = 't' then some 0x09
  else none

/-- The rest of a string, from behind its opening quote. -/
def readChars : Text → Option (Str × Text)
  | [] => none
  | c :: t =>
    if c = '"' then some ([], t)
    else if c = '\\' then
      match t with
      | [] => none
      | e :: t =>
        if e = 'u' then
          match t with
          | h₁ :: h₂ :: h₃ :: h₄ :: t =>
            (hexUnit h₁ h₂ h₃ h₄).bind fun x => (readChars t).map fun (s, r) => (consUnit (Fin.ofNat _ x) s, r)
          | _ => none
        else (simpleEscape e).bind fun x => (readChars t).map fun (s, r) => (consUnit (Fin.ofNat _ x) s, r)
    else if c.toNat < 0x20 then none
    else (readChars t).map fun (s, r) => (consUnit (Fin.ofNat _ c.toNat) s, r)

section Sequences
variable {α : Type} (read : Text → Option (α × Text)) (close : Char)

/-- One or more members with commas between them, up to the closing bracket. -/
def readSequence : ℕ → Text → Option (List α × Text)
  | 0, _ => none
  | m + 1, t =>
    (read (skipSpace t)).bind fun (x, r) =>
      match skipSpace r with
      | [] => none
      | c :: r =>
        if c = ',' then (readSequence m r).map fun (xs, r) => (x :: xs, r)
        else if c = close then some ([x], r)
        else none

def readMembers (t : Text) : Option (List α × Text) :=
  match skipSpace t with
  | [] => none
  | c :: r => if c = close then some ([], r) else readSequence read close t.length t

/-- A member of an object. -/
def readField : Text → Option ((Str × α) × Text)
  | [] => none
  | c :: t =>
    if c = '"' then
      (readChars t).bind fun (k, r) =>
        match skipSpace r with
        | [] => none
        | c :: r => if c = ':' then (read (skipSpace r)).map fun (v, r) => ((k, v), r) else none
    else none

end Sequences

def tokenChar (c : Char) : Bool := c.isAlphanum || c == '-' || c == '+' || c == '.'

/-- The value that a word or a number stands for. -/
def scalar (t : Text) : Option Value :=
  if t = "null".toList then some .null
  else if t = "true".toList then some (.bool true)
  else if t = "false".toList then some (.bool false)
  else if h : isNumber t = true then some (.num ⟨t, h⟩)
  else none

def readScalar (t : Text) : Option (Value × Text) :=
  (scalar (t.takeWhile tokenChar)).map fun v => (v, t.dropWhile tokenChar)

/-- A value at the head of the text, nested at most as deep as the fuel. -/
def readValue : ℕ → Text → Option (Value × Text)
  | 0, _ => none
  | _ + 1, [] => none
  | n + 1, c :: t =>
    if c = '"' then (readChars t).map fun (s, r) => (.str s, r)
    else if c = '[' then (readMembers (readValue n) ']' t).map fun (xs, r) => (.arr xs, r)
    else if c = '{' then (readMembers (readField (readValue n)) '}' t).map fun (fs, r) => (.obj fs, r)
    else readScalar (c :: t)

/-- The value of a document. -/
def read (t : Text) : Option Value :=
  (readValue (t.length + 1) (skipSpace t)).bind fun (v, r) => if skipSpace r = [] then some v else none

/-! ### The strings of a value -/

mutual

/-- The strings and the keys in a value. -/
def strings : Value → List Str
  | .null => []
  | .bool _ => []
  | .num _ => []
  | .nonFinite _ => []
  | .str s => [s]
  | .arr items => stringsOfItems items
  | .obj fields => stringsOfFields fields

def stringsOfItems : List Value → List Str
  | [] => []
  | v :: vs => strings v ++ stringsOfItems vs

def stringsOfFields : List (Str × Value) → List Str
  | [] => []
  | (k, v) :: fs => k :: (strings v ++ stringsOfFields fs)

end

mutual

/-- The value with every string and key replaced. -/
def mapStrings (f : Str → Str) : Value → Value
  | .null => .null
  | .bool b => .bool b
  | .num n => .num n
  | .nonFinite x => .nonFinite x
  | .str s => .str (f s)
  | .arr items => .arr (mapItems f items)
  | .obj fields => .obj (mapFields f fields)

def mapItems (f : Str → Str) : List Value → List Value
  | [] => []
  | v :: vs => mapStrings f v :: mapItems f vs

def mapFields (f : Str → Str) : List (Str × Value) → List (Str × Value)
  | [] => []
  | (k, v) :: fs => (f k, mapStrings f v) :: mapFields f fs

end

mutual

/-- Every number in the value is finite. -/
def finite : Value → Bool
  | .null => true
  | .bool _ => true
  | .num _ => true
  | .nonFinite _ => false
  | .str _ => true
  | .arr items => finiteItems items
  | .obj fields => finiteFields fields

def finiteItems : List Value → Bool
  | [] => true
  | v :: vs => finite v && finiteItems vs

def finiteFields : List (Str × Value) → Bool
  | [] => true
  | (_, v) :: fs => finite v && finiteFields fs

end

end ReleaseValidation.JsonTexts
