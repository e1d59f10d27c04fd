import TypedEndpoints.Json.Tree
import TypedEndpoints.Source.Reading
/-!
JSON trees as source nodes. Only a string is text, only null is nothing, and a list may stand for a
record.
-/
namespace TypedEndpoints.Source

/-- A string that names half of a surrogate pair has no reading. -/
def Scalar.ofText? : Option String → Scalar
  | some s => .ofText s
  | none => .opaqueValue

namespace Node

def jsonList : ListRole := { record := true, surplus := false, kinds := true }

mutual
def ofJson : Json.Tree → Node Empty
  | .null => .scalar { Scalar.opaqueValue with absence := .absent }
  | .bool b => .scalar { Scalar.opaqueValue with flag := some b }
  | .number _ => .scalar .opaqueValue
  | .text s => .scalar (.ofText? s)
  | .list ts => .list jsonList (ofJsonItems ts)
  | .object ms => .map (ofJsonMembers ms)

def ofJsonItems : List Json.Tree → List (Node Empty)
  | [] => []
  | t :: ts => ofJson t :: ofJsonItems ts

def ofJsonMembers : List (Option String × Json.Tree) → List (Node Empty × Node Empty)
  | [] => []
  | (key, t) :: ms => (.scalar (.ofText? key), ofJson t) :: ofJsonMembers ms
end

end Node
end TypedEndpoints.Source
