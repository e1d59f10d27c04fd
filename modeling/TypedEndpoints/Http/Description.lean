import TypedEndpoints.Http.Client
import TypedEndpoints.Text.Literal
/-!
Clients and builders in one line, for logs. Two dots stand for the parts that have no text: transports
and the workings of an interceptor.
-/
namespace TypedEndpoints

def describeParts (name : String) (fields : List (String × String)) : String :=
  let shown := fields.map fun f => (f.1 ++ ": " ++ f.2 ++ ", ").toList
  String.ofList (name.toList ++ [' ', '{', ' '] ++ shown.flatten ++ ['.', '.', ' ', '}'])

def describeBool (b : Bool) : String := if b then "true" else "false"

def describeOption : Option String → String
  | some s => "Some(" ++ Text.literal s ++ ")"
  | none => "None"

variable {m : Type → Type}

def ClientBuilder.describe (b : ClientBuilder m) : String :=
  describeParts "ClientBuilder"
    [("base_url", describeOption b.base), ("interceptor", describeBool b.interceptor.isSome)]

def Client.describe (c : Client m) : String :=
  describeParts "Client"
    [("base_url", Text.literal c.base), ("interceptor", describeBool c.interceptor.isSome)]

def describeNext : String := describeParts "Next" []

def describeFallback : String := describeParts "ReqwestTransport" []

end TypedEndpoints
