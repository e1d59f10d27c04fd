import TypedEndpoints.Json.Reader
import TypedEndpoints.OpenApi.Reading
import TypedEndpoints.Source.Json
import TypedEndpoints.Source.Yaml
import TypedEndpoints.Text.Cut
/-!
Texts of documents and schemas, in JSON or YAML. A document whose first character is a brace is taken
for JSON, every other one for YAML.
-/
namespace TypedEndpoints.OpenApi

inductive ParseError where
  | notJson
  | notYaml (f : Yaml.Fault)
  | shape (f : Source.Fault)
deriving Repr, DecidableEq

def ParseError.detail : ParseError → String
  | .notJson => "the text is not JSON"
  | .notYaml f => f.message
  | .shape f => f.message

def ParseError.message (e : ParseError) : String :=
  "failed to parse OpenAPI document: " ++ e.detail

/-- The values that are kept may nest this deep in YAML. -/
def yamlDepth : Nat := 128

def ofTree {α : Type} (read : Nat → Source.Node Empty → Except Source.Fault α) (t : Json.Tree) :
    Except ParseError α :=
  (read Json.maxDepth (Source.Node.ofJson t)).mapError .shape

def ofJson {α : Type} (read : Nat → Source.Node Empty → Except Source.Fault α) (cs : List Char) :
    Except ParseError α :=
  match Json.Tree.parse? cs with
  | none => .error .notJson
  | some t => ofTree read t

def ofYaml {α : Type} (read : Nat → Source.Node Nat → Source.LinkReader α) (cs : List Char) :
    Except ParseError α :=
  match Yaml.Node.parse cs with
  | .error f => .error (.notYaml f)
  | .ok none =>
    ((read yamlDepth (.scalar .void)).run [] 1).mapError .shape
  | .ok (some n) =>
    match Source.ofYaml [] n with
    | .error f => .error (.notYaml f)
    | .ok l => ((read yamlDepth l.node).run l.table (Source.eventCount n)).mapError .shape

namespace Document

def fromJson (s : String) : Except ParseError Document := ofJson Document.read s.toList

def fromYaml (s : String) : Except ParseError Document := ofYaml Document.read s.toList

def looksLikeJson (s : String) : Bool := (Text.trimStart s.toList).head? == some '{'

def parse (s : String) : Except ParseError Document :=
  if looksLikeJson s then fromJson s else fromYaml s

end Document

namespace Schema

def fromJson (s : String) : Except ParseError Schema := ofJson Schema.read s.toList

def fromYaml (s : String) : Except ParseError Schema := ofYaml Schema.read s.toList

end Schema
end TypedEndpoints.OpenApi
