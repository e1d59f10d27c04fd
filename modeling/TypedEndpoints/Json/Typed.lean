import TypedEndpoints.Json.Tree
/-!
Typed views of a JSON value. A view accepts exactly the values of its type: integers are not floats,
text is never parsed, and a record may be written as an object or as the list of its fields.
-/
namespace TypedEndpoints.Json

/-- What a value is read as; `none` when it has another shape. -/
abbrev View (α : Type) := Value → Option α

namespace View
variable {α : Type}

def bool : View Bool
  | .bool b => some b
  | _ => none

def text : View String
  | .text s => some s
  | _ => none

def int (low high : Int) : View Int
  | .number (.int i) => if low ≤ i ∧ i ≤ high then some i else none
  | _ => none

def i64 : View Int := int (-Int.pow 2 63) (Int.pow 2 63 - 1)
def u8 : View Int := int 0 255
def u64 : View Int := int 0 (Int.pow 2 64 - 1)

def option (view : View α) : View (Option α)
  | .null => some none
  | v => (view v).map some

def list (view : View α) : View (List α)
  | .list vs => vs.mapM view
  | _ => none

def map (view : View α) : View (List (String × α))
  | .object ms => ms.mapM fun p => (view p.2).map fun v => (p.1, v)
  | _ => none

/-- A field of a record: its value may be missing when `fallback` stands for it. -/
def field (view : View α) (fallback : Option α) : Option Value → Option α
  | some v => view v
  | none => fallback

end View
end TypedEndpoints.Json
