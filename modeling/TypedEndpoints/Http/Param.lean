import TypedEndpoints.Json.Tree
import TypedEndpoints.OrderedMap
/-!
Parameter values: what is put into paths and queries. A value goes to JSON and back unchanged, except
for floats that JSON does not have.
-/
namespace TypedEndpoints

inductive ParamValue where
  | bool (b : Bool)
  | integer (i : Int64)
  | float (x : Float)
  | text (s : String)

abbrev Params := OrderedMap ParamValue

namespace ParamValue

/-- Floats without exponent and without a fraction of zero; a tie takes the larger digit. -/
def floatChars (x : Float) : List Char :=
  match Decimal.Binary64.ofFloat x with
  | .nan => "NaN".toList
  | .infinite negative => if negative then "-inf".toList else "inf".toList
  | .finite negative m q =>
    let body := Decimal.positional false (Decimal.shortest .up m q)
    if negative then '-' :: body else body

def chars : ParamValue → List Char
  | .bool true => "true".toList
  | .bool false => "false".toList
  | .integer i => Json.intText i.toInt
  | .float x => floatChars x
  | .text s => s.toList

def display (v : ParamValue) : String := String.ofList v.chars

/-- JSON has no infinities and no value that is no number: they become null. -/
def toJson : ParamValue → Json.Value
  | .bool b => .bool b
  | .integer i => .number (.int i.toInt)
  | .float x => if x.isFinite then .number (.float x) else .null
  | .text s => .text s

def fitsInt64 (i : Int) : Bool := -Int.pow 2 63 ≤ i && i < Int.pow 2 63

/-- The first of truth value, integer, float and text that fits. -/
def ofJson? : Json.Value → Option ParamValue
  | .bool b => some (.bool b)
  | .number (.int i) =>
    some (if fitsInt64 i then .integer (Int64.ofInt i) else .float (Float.ofInt i))
  | .number (.float x) => some (.float x)
  | .text s => some (.text s)
  | _ => none

end ParamValue
end TypedEndpoints
