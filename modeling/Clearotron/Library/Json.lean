import Clearotron.Library.Keyed
import Mathlib.Data.List.Sort

/-!
# JSON values

A value as a parser leaves it. An object is the list of its fields; read as a map, a key
written twice has the value written last. Two values have the same content where they are
written alike once every object is written in the order of its keys.
-/

namespace Clearotron

inductive Json where
  | null
  | bool (b : Bool)
  | num (n : Rat)
  | str (s : String)
  | arr (items : List Json)
  | obj (fields : List (String × Json))

/-- What a value is written with. -/
inductive JsonToken where
  | null
  | bool (b : Bool)
  | num (n : Rat)
  | str (s : String)
  | openList
  | closeList
  | openObject
  | key (k : String)
  | closeObject
  deriving DecidableEq

namespace Json

mutual

/-- The value written with every object in the order of its keys. -/
def canon : Json → List JsonToken
  | .null => [.null]
  | .bool b => [.bool b]
  | .num n => [.num n]
  | .str s => [.str s]
  | .arr items => .openList :: (canonItems items ++ [.closeList])
  | .obj fields =>
    let sorted := (canonFields fields).insertionSort fun a b => a.1 ≤ b.1
    .openObject :: (sorted.flatMap (fun kv => .key kv.1 :: kv.2) ++ [.closeObject])

def canonItems : List Json → List JsonToken
  | [] => []
  | item :: rest => item.canon ++ canonItems rest

def canonFields : List (String × Json) → List (String × List JsonToken)
  | [] => []
  | (k, v) :: rest => (k, v.canon) :: canonFields rest

end

/-- The two have the same content. -/
def sameValue (a b : Json) : Bool := a.canon = b.canon

@[simp] theorem sameValue_refl (a : Json) : sameValue a a = true := by simp [sameValue]

theorem sameValue_symm {a b : Json} (same : sameValue a b = true) : sameValue b a = true := by
  simp only [sameValue, decide_eq_true_eq] at same ⊢
  exact same.symm

theorem sameValue_trans {a b c : Json} (same : sameValue a b = true)
    (same' : sameValue b c = true) : sameValue a c = true := by
  simp only [sameValue, decide_eq_true_eq] at same same' ⊢
  exact same.trans same'

/-- A number, where the value is one. -/
def number? : Json → Option Rat
  | .num n => some n
  | _ => none

theorem number?_of_sameValue {a b : Json} (same : sameValue a b = true) : a.number? = b.number? := by
  simp only [sameValue, decide_eq_true_eq] at same
  cases a <;> cases b <;> simp [canon] at same <;> simp [number?, same]

/-- `v?.k`. -/
def field (v : Json) (k : String) : Option Json :=
  match v with
  | .obj fields => fields.lookup k
  | _ => none

/-- `v != null && typeof v === "object" && !Array.isArray(v)`. -/
def isPlainObject : Json → Bool
  | .obj _ => true
  | _ => false

/-- The map an object is. -/
def asObject : Json → Option (Keyed String Json)
  | .obj fields => some (Keyed.ofList fields)
  | _ => none

def ofObject (m : Keyed String Json) : Json := .obj m.entries

@[simp] theorem asObject_ofObject (m : Keyed String Json) : (ofObject m).asObject = some m :=
  congrArg some (Keyed.ofList_entries m)

/-- `Object.entries(v)`: the fields of an object, the numbered parts of a list or a text. -/
def parts : Json → Keyed String Json
  | .obj fields => .ofList fields
  | .arr items => .ofList (items.zipIdx.map fun (v, i) => (toString i, v))
  | .str s => .ofList (s.toList.zipIdx.map fun (c, i) => (toString i, .str c.toString))
  | _ => .empty

mutual

/-- `String(v)`. -/
def text (numberText : Rat → String) : Json → String
  | .null => "null"
  | .bool b => if b then "true" else "false"
  | .num n => numberText n
  | .str s => s
  | .arr items => ",".intercalate (texts numberText items)
  | .obj _ => "[object Object]"

def texts (numberText : Rat → String) : List Json → List String
  | [] => []
  | .null :: rest => "" :: texts numberText rest
  | item :: rest => item.text numberText :: texts numberText rest

end

end Json

end Clearotron
