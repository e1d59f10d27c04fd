import TypedEndpoints.OpenApi.Document
import TypedEndpoints.TypeScript.Layout
/-!
Types of schemas. Where a schema is used, its type is a name, a primitive or an array of these; where
it is declared, its properties become members, unless its name is overridden: then it is declared as a
given text, whatever the document says of it.
-/
namespace TypedEndpoints.Generation
open OpenApi TypeScript

/-- Texts by schema name. -/
abbrev Overrides := OrderedMap String

namespace Overrides

def defaults : Overrides := [("Guid", "string"), ("HashID", "string")]

/-- The defaults, with mappings added or put in their place; the last one for a name counts. -/
def withMappings (mappings : List (String × String)) : Overrides :=
  mappings.foldl (fun o p => OrderedMap.insert p.1 p.2 o) defaults

end Overrides

/-- The type of a kind other than `array`; unknown kinds are `any`. -/
def primitiveOf : Option String → TypeExpr
  | some "integer" => .primitive .number
  | some "number" => .primitive .number
  | some "string" => .primitive .string
  | some "boolean" => .primitive .boolean
  | _ => .any

mutual
/-- The type of a schema where it is used. Objects without a name are `any`. -/
def typeOf : Schema → TypeExpr
  | ⟨_, some ref, _, _, _⟩ => .ref (refName ref)
  | ⟨type, none, _, items, _⟩ =>
    match type.bind SchemaType.kind? with
    | some "array" => .array (typeOfItems items)
    | kind => primitiveOf kind

def typeOfItems : Option Schema → TypeExpr
  | none => .any
  | some s => typeOf s
end

/-- The member of a property: optional when it may be null. -/
def memberOf (name : String) (s : Schema) : Member TypeExpr :=
  { name, type := typeOf s, optional := s.isNullable }

def definitionOf (s : Schema) : Definition :=
  match s.properties with
  | some ps => .structural (ps.map fun p => memberOf p.1 p.2)
  | none =>
    if s.ref.isNone ∧ (s.kind = none ∨ s.kind = some "object") then .structural []
    else .alias (typeOf s)

def declarationOf (overrides : Overrides) (name : String) (s : Schema) : Declaration :=
  match overrides.get? name with
  | some text => { name, definition := .alias (.verbatim text) }
  | none => { name, definition := definitionOf s }

def declarations (overrides : Overrides) (d : Document) : List Declaration :=
  d.schemas.map fun p => declarationOf overrides p.1 p.2

end TypedEndpoints.Generation
