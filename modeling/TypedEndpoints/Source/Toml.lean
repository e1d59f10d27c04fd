import TypedEndpoints.Source.Reading
import TypedEndpoints.Toml.Reader
/-!
TOML values as source nodes. Only strings are text. A list may stand for a record, and items past its
last field are passed over; a date is a map with one private key.
-/
namespace TypedEndpoints.Source.Node

def tomlList : ListRole := { record := true, surplus := true, kinds := true }

def dateKey : String := "$__toml_private_datetime"

mutual
def ofToml : Toml.Value → Node Empty
  | .text s => .scalar (.ofText s)
  | .bool b => .scalar { Scalar.opaqueValue with flag := some b }
  | .integer _ => .scalar .opaqueValue
  | .float _ => .scalar .opaqueValue
  | .datetime s => .map [(.scalar (.ofText dateKey), .scalar (.ofText s))]
  | .list vs => .list tomlList (ofTomlItems vs)
  | .table _ es => .map (ofTomlEntries es)
  | .tables ts => .list tomlList (ofTomlTables ts)

def ofTomlItems : List Toml.Value → List (Node Empty)
  | [] => []
  | v :: vs => ofToml v :: ofTomlItems vs

def ofTomlEntries : List (String × Toml.Value) → List (Node Empty × Node Empty)
  | [] => []
  | (k, v) :: es => (.scalar (.ofText k), ofToml v) :: ofTomlEntries es

def ofTomlTables : List (List (String × Toml.Value)) → List (Node Empty)
  | [] => []
  | es :: ts => .map (ofTomlEntries es) :: ofTomlTables ts
end

end TypedEndpoints.Source.Node
