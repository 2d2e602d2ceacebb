import Memplex.Py.Float
import Memplex.Protocol.Time

/-!
# Conversions of the language

What `dict(v)`, `list(v)`, `iter(v)`, `float(n)` and `v in {…}` do to a plain JSON value, with the
errors they raise. A dictionary built from a list of pairs may have keys that are no strings, so
`PyDict` keeps keys as values and compares them as Python does: numbers and booleans by their
numeric value.

`Env` stands for the parts of the standard library that the model takes as they are: Unicode case
folding and stripping, and ISO-8601 parsing. A datetime is its ISO text and its instant.
-/

namespace Memplex

open Lib

/-- A datetime of the program. -/
structure PyDatetime where
  /-- `value.isoformat()`. -/
  isoformat : String
  /-- `value.astimezone(UTC)`. -/
  utc : Timestamp
deriving DecidableEq

/-- The text functions of the standard library that the model takes as parameters. -/
structure Env where
  /-- `text.lower()`. -/
  lower : String → String
  /-- `text.strip()`. -/
  strip : String → String
  /-- `datetime.fromisoformat(text)`; `none` is its `ValueError`. -/
  fromisoformat : String → Option PyDatetime

/-- `value.isoformat()` of an aware UTC datetime. -/
def Timestamp.isoformat (t : Timestamp) : String :=
  String.ofList (writeFields [(4, '-'), (2, '-'), (2, 'T'), (2, ':'), (2, ':')]
    [t.year, t.month, t.day, t.hour, t.minute] ++ fixedDigits 2 t.second ++
    (if t.micro = 0 then [] else '.' :: fixedDigits 6 t.micro)) ++ "+00:00"

/-- The UTC datetime of an instant. -/
def PyDatetime.ofUtc (t : Timestamp) : PyDatetime := ⟨t.isoformat, t⟩

/-- A dictionary whose keys are hashable values. -/
abbrev PyDict := List (Value × Value)

/-- The numeric value that a key is compared by, zero without its sign. -/
def numericKey : Value → Option Dec
  | .bool b => some (Dec.ofInt (if b then 1 else 0))
  | .int i => some (Dec.ofInt i)
  | .float (.finite d) => some (if d.mant = 0 then Dec.ofInt 0 else d)
  | _ => none

/-- Whether two keys are equal. -/
def keyEq (a b : Value) : Bool :=
  match numericKey a, numericKey b with
  | some x, some y => x = y
  | none, none => a = b
  | _, _ => false

namespace PyDict

/-- `d[key] = value`. -/
def insert (d : PyDict) (key value : Value) : PyDict :=
  if d.any fun m => keyEq m.1 key then
    d.map fun m => if keyEq m.1 key then (m.1, value) else m
  else d ++ [(key, value)]

/-- `d.update(other)`. -/
def update (d other : PyDict) : PyDict := other.foldl (fun d m => d.insert m.1 m.2) d

/-- `d.get(key)` for a string key. -/
def getStr (d : PyDict) (key : String) : Value :=
  ((d.find? fun m => keyEq m.1 (.str key)).map Prod.snd).getD .null

/-- `d[key] = value` for a string key. -/
def insertStr (d : PyDict) (key : String) (value : Value) : PyDict := d.insert (.str key) value

/-- The key that `json.dumps` writes. -/
def jsonKey : Value → String
  | .null => "null"
  | .bool true => "true"
  | .bool false => "false"
  | .int i => String.ofList (strInt i)
  | .float (.finite d) => String.ofList (reprFloat d)
  | .float (.inf false) => "Infinity"
  | .float (.inf true) => "-Infinity"
  | .float .nan => "NaN"
  | .str s => s
  | _ => ""

/-- The members that `json.dumps` and `json.loads` make of a dictionary. -/
def toMembers (d : PyDict) : Members := d.foldl (fun ms m => ms.set (jsonKey m.1) m.2) []

/-- Whether every key is a string. -/
def strKeys (d : PyDict) : Bool := d.all fun m => match m.1 with
  | .str _ => true
  | _ => false

end PyDict

/-- Whether a value can be a dictionary key or an element of a set. -/
def hashable : Value → Bool
  | .arr _ => false
  | .obj _ => false
  | _ => true

/-- `value in {None, s₁, …}` for a set of strings, with or without `None`. -/
def inStrings (value : Value) (orNone : Bool) (strings : List String) : Except PyError Bool :=
  match value with
  | .null => .ok orNone
  | .str s => .ok (decide (s ∈ strings))
  | v => if hashable v then .ok false else .error (typeError "unhashable type")

/-- The elements of an iterable value. -/
def pyIter : Value → Except PyError (List Value)
  | .arr items => .ok items
  | .obj members => .ok (members.map fun m => .str m.1)
  | .str s => .ok (s.toList.map fun c => .str (String.ofList [c]))
  | _ => .error (typeError "object is not iterable")

/-- `list(value)`. -/
def pyList (value : Value) : Except PyError (List Value) := pyIter value

/-- One element of a sequence of pairs. -/
def pairOf (value : Value) : Except PyError (Value × Value) := do
  match ← pyIter value with
  | [k, v] =>
    require (hashable k = true) (typeError "unhashable type")
    return (k, v)
  | _ => .error (valueError "dictionary update sequence element has wrong length")

/-- `dict(value)`. -/
def pyDict : Value → Except PyError PyDict
  | .obj members => .ok (members.map fun m => (.str m.1, m.2))
  | v => do
    let pairs ← (← pyIter v).mapM pairOf
    return pairs.foldl (fun d p => d.insert p.1 p.2) []

/-- `float(n)`. -/
def Num.toFloat : Num → PyFloat
  | .int i => .finite (Dec.ofInt i)
  | .float x => x

end Memplex
